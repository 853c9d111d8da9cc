import TalentFlow.Gateway.WellFormed
import TalentFlow.Async.Tally

/-!
# Guarantees.Lockout

Failed logins are counted per email, and a login is turned away once the counter has reached
`ACCOUNT_LOCKOUT_MAX_ATTEMPTS`. The counter is read first and increased several steps later, so
logins that run at the same time all pass while it is low.

A `Ledger` is what matters of a configuration for one email: the counter, the logins past the check
that have not been counted yet, and the failed password checks. Every step of the gateway is one of
seven things that can happen to a ledger.

* `ledger_step`: the gateway's steps, as steps of the ledger.
* `failed_checks_bounded`: the bound, when the check takes the logins under way into account.
* `failed_checks_exceed`: six logins at once, all of them checked.
-/

namespace TalentFlow

open Data Async

def Request.loginEmail : Request → Option String
  | .login email _ _ => some email
  | _ => none

/-- The login attempts counter of the email; `none` while the key is absent. -/
def loginCounter (w : World) (email : String) : Option Nat :=
  w.redis.get w.now (.loginAttempts email)

/-! ## The stages of a login -/

/-- How far a login has come. -/
inductive CheckStage where
  | start
  /-- the counter was low enough -/
  | passed
  /-- the password was wrong, and the counter has not been increased for it -/
  | wrong
  | closed
  deriving DecidableEq

namespace CheckStage

def next : CheckStage → Event Api → CheckStage
  | start, ⟨.redis (.get (.loginAttempts _)), .ok attempts⟩ =>
    if ACCOUNT_LOCKOUT_MAX_ATTEMPTS ≤ attempts.getD (0 : Nat) then closed else passed
  | passed, ⟨.prisma (.userFindUnique _), .error _⟩ => closed
  | passed, ⟨.bcryptCompare _ _, .ok true⟩ => closed
  | passed, ⟨.bcryptCompare _ _, .ok false⟩ => wrong
  -- there is no such user, so no password was checked
  | passed, ⟨.redis (.incr _), _⟩ => closed
  | wrong, ⟨.redis (.incr _), .ok _⟩ => closed
  | s, _ => s

/-- What a request may do to counters and passwords. -/
def Allows (r : Request) (s : CheckStage) : Call → Prop
  | .redis (.get (.loginAttempts email)) => s = start ∧ r.loginEmail = some email
  | .redis (.incr email) => (s = passed ∨ s = wrong) ∧ r.loginEmail = some email
  | .redis (.del (.loginAttempts email)) => r.loginEmail = some email
  | .redis (.expire (.loginAttempts email) n) => 0 < n ∧ r.loginEmail = some email
  | .redis (.set (.loginAttempts _) _ _) => False
  | .bcryptCompare _ _ => s = passed
  | _ => True

def IsPlain : Call → Prop
  | .redis (.get (.loginAttempts _)) => False
  | .redis (.incr _) => False
  | .redis (.del (.loginAttempts _)) => False
  | .redis (.expire (.loginAttempts _) _) => False
  | .redis (.set (.loginAttempts _) _ _) => False
  | .bcryptCompare _ _ => False
  | _ => True

theorem allows_plain {c : Call} (h : IsPlain c) (r : Request) (s : CheckStage) :
    Allows r s c := by
  unfold Allows
  split <;> first | exact h.elim | trivial

end CheckStage

def checkMonitor (r : Request) : Monitor Api CheckStage where
  next := CheckStage.next
  call := CheckStage.Allows r
  answer _ _ _ := True

section Programs

variable {α : Type} {email password : String} {context : LoginContext} {s : CheckStage}

theorem plain_quiet (c : Call) (h : c.IsQuiet) : CheckStage.IsPlain c := by
  unfold CheckStage.IsPlain
  split <;> first | exact h | trivial

theorem footprint_plain {r : Request} (hr : r.loginEmail = none) {c : Call} (h : r.footprint c) :
    CheckStage.IsPlain c := by
  cases r with
  | login email password context => cases hr
  | signup email password fullName role =>
    obtain rfl | ⟨hashed, rfl⟩ := h <;> trivial
  | refresh cookie context =>
    obtain ⟨token, -, rfl | rfl | rfl | ⟨id, new, n, rfl⟩⟩ := h <;> trivial
  | logout cookie context =>
    obtain ⟨id, rfl⟩ | ⟨n, rfl⟩ := h <;> trivial
  | _ => obtain ⟨c, rfl⟩ | rfl | ⟨c, rfl⟩ | ⟨event, rfl⟩ := footprint_rest rfl h <;> trivial

theorem obeys_of_free {r : Request} {p : Prog Api α}
    (hp : p.Calls fun c => ∀ s, CheckStage.Allows r s c) (s : CheckStage) :
    Obeys (checkMonitor r) (fun _ _ => True) p s :=
  obeys_of_allowed hp fun s _ hc => hc s

theorem free_plain {r : Request} {c : Call} (h : CheckStage.IsPlain c) :
    ∀ s, CheckStage.Allows r s c := CheckStage.allows_plain h r

/-- A failed login is counted from a stage in which it may be. -/
theorem handleFailedLogin_obeys (hs : s = .passed ∨ s = .wrong) (userId : Option String) :
    Obeys (checkMonitor (.login email password context)) (fun _ _ => True)
      (AuthService.handleFailedLogin email context userId) s := by
  have hquiet : ∀ c : Call, c.IsQuiet →
      ∀ s, CheckStage.Allows (.login email password context) s c :=
    fun c hc => free_plain (plain_quiet c hc)
  have hexpire : ∀ s, CheckStage.Allows (.login email password context) s
      (.redis (.expire (.loginAttempts email) ACCOUNT_LOCKOUT_DURATION_SECONDS)) :=
    fun _ => ⟨by decide, rfl⟩
  obtain ⟨k, heq, hk⟩ := handleFailedLogin_eq hquiet hexpire context userId
  rw [heq]
  refine obeys_await ⟨hs, rfl⟩ (fun attempts _ => ?_) fun _ _ => trivial
  exact obeys_of_free (hk attempts) _

theorem checkAccountLockout_obeys {post : Except Exception Unit → CheckStage → Prop}
    (hpass : post (.ok ()) .passed) (herr : ∀ e s, post (.error e) s) :
    Obeys (checkMonitor (.login email password context)) post
      (AuthService.checkAccountLockout email) .start := by
  refine obeys_bind (obeys_await ⟨rfl, rfl⟩ (fun attempts _ => ?_) fun _ _ => herr _ _)
  change Obeys _ _ _ (if ACCOUNT_LOCKOUT_MAX_ATTEMPTS ≤ attempts.getD (0 : Nat)
    then CheckStage.closed else .passed)
  rw [obeys_pure]
  dsimp only
  by_cases hlocked : ACCOUNT_LOCKOUT_MAX_ATTEMPTS ≤ attempts.getD (0 : Nat)
  · rw [if_pos hlocked, if_pos hlocked]
    refine obeys_bind (obeys_await trivial (fun ttl _ => ?_) fun _ _ => herr _ _)
    exact obeys_await trivial (fun _ _ => herr _ _) fun _ _ => herr _ _
  · rw [if_neg hlocked, if_neg hlocked]
    exact hpass

theorem login_checks (email password : String) (context : LoginContext) :
    Obeys (checkMonitor (.login email password context)) (fun _ _ => True)
      (Request.login email password context).prog .start := by
  have hquiet : ∀ c : Call, c.IsQuiet →
      ∀ s, CheckStage.Allows (.login email password context) s c :=
    fun c hc => free_plain (plain_quiet c hc)
  have hfail : ∀ {β : Type} {s : CheckStage} (userId : Option String) (f : Unit → Prog Api β),
      (s = .passed ∨ s = .wrong) → (∀ a, (f a).Calls fun _ => False) →
      Obeys (checkMonitor (.login email password context)) (fun _ _ => True)
        (AuthService.handleFailedLogin email context userId >>= f) s := by
    intro β s userId f hs hf
    refine obeys_bind (obeys_mono (handleFailedLogin_obeys hs userId) fun o s' _ => ?_)
    cases o with
    | ok a => exact obeys_of_free (calls_mono (hf a) fun _ h => h.elim) s'
    | error e => trivial
  refine obeys_bind (obeys_mono (show Obeys _ (fun _ _ => True) _ _ from ?_)
    fun o s _ => by cases o <;> trivial)
  refine obeys_bind (checkAccountLockout_obeys ?_ fun _ _ => trivial)
  refine obeys_await trivial (fun found _ => ?_) fun _ _ => trivial
  change Obeys _ _ _ CheckStage.passed
  split
  · exact hfail none _ (.inl rfl) fun _ => trivial
  rename_i user _
  refine obeys_await rfl (fun valid _ => ?_) fun _ _ => trivial
  cases valid with
  | false => exact hfail (some user.id) _ (.inr rfl) fun _ => trivial
  | true =>
    change Obeys _ _ _ CheckStage.closed
    refine obeys_of_free ?_ _
    refine calls_bind (calls_bind (calls_await fun _ => rfl) fun _ => trivial) fun _ => ?_
    refine calls_bind (generateTokens_calls hquiet (free_plain trivial) user) fun tokens => ?_
    refine calls_bind (calls_await (free_plain trivial)) fun _ => ?_
    exact calls_bind (calls_await (hquiet (.audit _) trivial)) fun _ => trivial

theorem prog_checks (r : Request) :
    Obeys (checkMonitor r) (fun _ _ => True) r.prog .start := by
  cases hr : r.loginEmail with
  | some email =>
    cases r with
    | login email password context => exact login_checks email password context
    | _ => cases hr
  | none =>
    refine obeys_of_free (calls_mono (prog_calls r) fun c hc => ?_) _
    rcases hc with hquiet | hfp
    · exact free_plain (plain_quiet c hquiet)
    · exact free_plain (footprint_plain hr hfp)

end Programs

/-! ## The ledger of an email -/

@[ext]
structure Ledger where
  /-- the counter, 0 while it is absent -/
  counter : ℕ
  /-- logins past the check that have not been counted, and may still be -/
  outstanding : ℕ
  /-- those of them whose password was wrong -/
  wrong : ℕ
  /-- all failed password checks -/
  failed : ℕ

namespace Ledger

/-- What one step can do to a ledger, other than clearing its counter. -/
inductive Step (l l' : Ledger) : Prop where
  | same (h : l' = l)
  /-- a login passes the check, and there is room for it -/
  | passed (hroom : l.counter + l.outstanding < ACCOUNT_LOCKOUT_MAX_ATTEMPTS)
      (h : l' = { l with outstanding := l.outstanding + 1 })
  | failed (h : l' = { l with wrong := l.wrong + 1, failed := l.failed + 1 })
  /-- no longer outstanding: the password was right, or the lookup failed -/
  | settled (n : ℕ) (ho : l.outstanding = n + 1) (h : l' = { l with outstanding := n })
  /-- counted after a wrong password -/
  | counted (n m : ℕ) (ho : l.outstanding = n + 1) (hw : l.wrong = m + 1)
      (h : l' = { l with counter := l.counter + 1, outstanding := n, wrong := m })
  /-- counted without a password check, for an email that nobody has -/
  | countedUnknown (n : ℕ) (ho : l.outstanding = n + 1)
      (h : l' = { l with counter := l.counter + 1, outstanding := n })

/-- The ledger once the counter has expired or been deleted. -/
def clear (l : Ledger) : Ledger := { l with counter := 0 }

/-- Whatever is outstanding still fits below the limit. -/
def Fits (l : Ledger) : Prop :=
  l.outstanding = 0 ∨ l.counter + l.outstanding ≤ ACCOUNT_LOCKOUT_MAX_ATTEMPTS

variable {l l' : Ledger}

theorem room_step (h : l.counter + l.outstanding ≤ ACCOUNT_LOCKOUT_MAX_ATTEMPTS)
    (hstep : l.Step l') : l'.counter + l'.outstanding ≤ ACCOUNT_LOCKOUT_MAX_ATTEMPTS := by
  cases hstep with
  | same h' =>
    subst h'
    exact h
  | passed hroom h' =>
    subst h'
    dsimp only
    omega
  | failed h' =>
    subst h'
    exact h
  | settled n ho h' =>
    subst h'
    dsimp only
    omega
  | counted n m ho hw h' =>
    subst h'
    dsimp only
    omega
  | countedUnknown n ho h' =>
    subst h'
    dsimp only
    omega

theorem fits_step (h : l.Fits) (hstep : l.Step l') : l'.Fits := by
  obtain hzero | hroom := h
  swap
  · exact .inr (room_step hroom hstep)
  -- nothing is outstanding, so nothing can be counted or settled
  cases hstep with
  | same h' => exact .inl (by rw [h', hzero])
  | passed hroom h' =>
    subst h'
    right
    dsimp only
    omega
  | failed h' =>
    subst h'
    exact .inl hzero
  | settled n ho h' => omega
  | counted n m ho hw h' => omega
  | countedUnknown n ho h' => omega

theorem fits_clear (h : l.Fits) : l.clear.Fits := by
  unfold Fits clear at *
  dsimp only
  omega

/-- While the counter is not cleared, every failed check has been counted or is still to be. -/
theorem covered_step {base : ℕ} (h : l.failed ≤ base + l.counter + l.wrong) (hstep : l.Step l') :
    l'.failed ≤ base + l'.counter + l'.wrong := by
  cases hstep with
  | same h' =>
    subst h'
    exact h
  | passed hroom h' =>
    subst h'
    exact h
  | failed h' =>
    subst h'
    dsimp only
    omega
  | settled n ho h' =>
    subst h'
    exact h
  | counted n m ho hw h' =>
    subst h'
    dsimp only
    omega
  | countedUnknown n ho h' =>
    subst h'
    dsimp only
    omega

end Ledger

/-! ## The ledger of a configuration -/

/-- The login is past the check and has not been counted, and may still be. -/
def CheckStage.isOutstanding : CheckStage → Bool
  | passed => true
  | wrong => true
  | _ => false

def CheckStage.isWrong : CheckStage → Bool
  | wrong => true
  | _ => false

theorem CheckStage.isOutstanding_of_isWrong {s : CheckStage} (h : s.isWrong = true) :
    s.isOutstanding = true := by
  cases s with
  | wrong => rfl
  | _ => cases h

section Count

variable (requests : ℕ → Request) (email : String) (cfg : Config Api ℕ World Response)

def checkStage : ℕ → CheckStage :=
  stage (fun i => checkMonitor (requests i)) (fun _ => .start) cfg

/-- The logins for the email that `S` counts in the stage they are in. -/
def loginsIn (S : CheckStage → Bool) : Finset ℕ :=
  tally (fun i => checkMonitor (requests i)) (fun _ => .start)
    (fun i s => decide ((requests i).loginEmail = some email) && S s) cfg

/-- The logins for the email that are past the check and have not been counted yet. -/
def outstandingLogins : Finset ℕ := loginsIn requests email cfg CheckStage.isOutstanding

def isFailedCheck : ℕ × Event Api → Bool
  | (i, ⟨.bcryptCompare _ _, .ok false⟩) => decide ((requests i).loginEmail = some email)
  | _ => false

def failedChecks : ℕ := cfg.log.countP (isFailedCheck requests email)

def ledger : Ledger where
  counter := (loginCounter cfg.world email).getD 0
  outstanding := (outstandingLogins requests email cfg).card
  wrong := (loginsIn requests email cfg CheckStage.isWrong).card
  failed := failedChecks requests email cfg

end Count

/-- A login that passes the check finds room for itself next to those under way: the counter and
the logins past the check that have not been counted yet stay below the limit. -/
def Throttled (requests : ℕ → Request) (email : String) (cfg : Config Api ℕ World Response)
    (l : Label ℕ Choice Move) : Prop :=
  ∀ i ch k, l = .run i ch → ch.fails = false →
    cfg.pool i = .call (.redis (.get (.loginAttempts email))) k →
    (loginCounter cfg.world email).getD 0 < ACCOUNT_LOCKOUT_MAX_ATTEMPTS →
    (loginCounter cfg.world email).getD 0 + (outstandingLogins requests email cfg).card <
      ACCOUNT_LOCKOUT_MAX_ATTEMPTS

section Exec

variable {requests : ℕ → Request} {email : String} {cfg : Config Api ℕ World Response} {i : ℕ}
  {ch : Choice} {c : Call} {k : Api.Answer c → Prog Api Response} {r : Api.Answer c} {w : World}

theorem loginCounter_set_ne {key : RedisKey} {v : key.Value} {x : Option Time} {w : World}
    (h : key ≠ .loginAttempts email) :
    loginCounter { w with redis := w.redis.set key v x } email = loginCounter w email :=
  Expiring.get_set_ne _ _ _ _ (Ne.symm h)

theorem loginCounter_plain (hp : CheckStage.IsPlain c) {w w' : World}
    (hx : gateway.exec i c ch w = some (r, w')) : loginCounter w' email = loginCounter w email := by
  cases c with
  | redis c =>
    obtain ⟨-, rfl⟩ | ⟨-, rfl⟩ := redis_cases hx
    · rfl
    cases c with
    | get key => rfl
    | existsKey key => rfl
    | ttl key =>
      unfold loginCounter
      simp only [RedisCall.perform]
      split <;> rfl
    | incr email' => exact hp.elim
    | set key v n =>
      cases key with
      | loginAttempts email' => exact hp.elim
      | _ => exact loginCounter_set_ne (by simp)
    | del key =>
      cases key with
      | loginAttempts email' => exact hp.elim
      | _ => exact Expiring.get_del_ne _ _ (by simp)
    | expire key n =>
      cases key with
      | loginAttempts email' => exact hp.elim
      | _ =>
        simp only [RedisCall.perform]
        split
        · rfl
        · exact loginCounter_set_ne (by simp)
  | _ =>
    unfold loginCounter
    rw [(exec_frame hx).redis (by simp), (exec_frame hx).now]

theorem loginCounter_expire {email' : String} {n : ℕ} (hn : 0 < n) {w : World} :
    loginCounter { w with redis :=
      ((RedisCall.expire (.loginAttempts email') n).perform w.now w.redis).2 } email =
        loginCounter w email := by
  simp only [RedisCall.perform]
  split
  · rfl
  · rename_i v hv
    by_cases he : RedisKey.loginAttempts email' = .loginAttempts email
    · cases he
      unfold loginCounter
      rw [Expiring.get_set_self, Expiring.live_until, if_pos, hv]
      exact Nat.lt_add_of_pos_right (Nat.mul_pos hn (by decide))
    · exact loginCounter_set_ne he

theorem loginCounter_incr {w : World} :
    loginCounter { w with redis := ((RedisCall.incr email).perform w.now w.redis).2 } email =
      some ((loginCounter w email).getD 0 + 1) := by
  simp only [RedisCall.perform]
  unfold loginCounter
  split
  · rename_i hnone
    rw [hnone, Expiring.get_set_self]
    rfl
  · rename_i n hn
    rw [hn]
    exact Expiring.get_set_keep hn _

theorem loginCounter_incr_ne {email' : String} (h : email' ≠ email) {w : World} :
    loginCounter { w with redis := ((RedisCall.incr email').perform w.now w.redis).2 } email =
      loginCounter w email := by
  have hk : RedisKey.loginAttempts email' ≠ .loginAttempts email := fun hk => h (by cases hk; rfl)
  simp only [RedisCall.perform]
  split <;> exact loginCounter_set_ne hk

theorem next_plain (hp : CheckStage.IsPlain c) (s : CheckStage) :
    CheckStage.next s ⟨c, r⟩ = s ∨ s = .passed ∧ CheckStage.next s ⟨c, r⟩ = .closed := by
  unfold CheckStage.next
  split
  all_goals rename_i heq
  all_goals first
    | exact .inl rfl
    | cases heq
  · exact hp.elim
  · exact .inr ⟨rfl, rfl⟩
  · exact hp.elim
  · exact hp.elim
  · exact hp.elim
  · exact hp.elim

theorem isFailedCheck_plain (hp : CheckStage.IsPlain c) :
    isFailedCheck requests email (i, ⟨c, r⟩) = false := by
  unfold isFailedCheck
  split
  · rename_i heq
    cases heq
    exact hp.elim
  · rfl

theorem loginsIn_answered (requests : ℕ → Request) (email : String)
    (cfg : Config Api ℕ World Response) (i : ℕ) (r : Api.Answer c)
    (k : Api.Answer c → Prog Api Response) (w : World) {S : CheckStage → Bool}
    (hS : S .start = false) :
    (loginsIn requests email (cfg.answered i r k w) S).card +
        (decide ((requests i).loginEmail = some email) && S (checkStage requests cfg i)).toNat =
      (loginsIn requests email cfg S).card +
        (decide ((requests i).loginEmail = some email) &&
          S (CheckStage.next (checkStage requests cfg i) ⟨c, r⟩)).toNat :=
  card_tally_answered (T := fun i s => decide ((requests i).loginEmail = some email) && S s) r k w
    (fun i => by simp [hS])

theorem failedChecks_answered (requests : ℕ → Request) (email : String)
    (cfg : Config Api ℕ World Response) (i : ℕ) (r : Api.Answer c)
    (k : Api.Answer c → Prog Api Response) (w : World) :
    failedChecks requests email (cfg.answered i r k w) =
      failedChecks requests email cfg + (isFailedCheck requests email (i, ⟨c, r⟩)).toNat := by
  unfold failedChecks
  rw [Config.answered_log, List.countP_append, List.countP_singleton]
  cases isFailedCheck requests email (i, ⟨c, r⟩) <;> rfl

theorem ledger_other (hown : (requests i).loginEmail ≠ some email)
    (hcounter : loginCounter w email = loginCounter cfg.world email) :
    ledger requests email (cfg.answered i r k w) = ledger requests email cfg := by
  have hout := loginsIn_answered requests email cfg i r k w (S := CheckStage.isOutstanding) rfl
  have hwrong := loginsIn_answered requests email cfg i r k w (S := CheckStage.isWrong) rfl
  have hfailed := failedChecks_answered requests email cfg i r k w
  have hcheck : isFailedCheck requests email (i, ⟨c, r⟩) = false := by
    unfold isFailedCheck
    split
    · rename_i heq
      cases heq
      exact decide_eq_false hown
    · rfl
  simp only [decide_eq_false hown, Bool.false_and, Bool.toNat_false, Nat.add_zero] at hout hwrong
  rw [hcheck, Bool.toNat_false, Nat.add_zero] at hfailed
  exact Ledger.ext (congrArg (Option.getD · 0) hcounter) hout hwrong hfailed

/-- The ledger after a call of a login for the email, counter aside. -/
theorem ledger_own {s s' : CheckStage} (hown : (requests i).loginEmail = some email)
    (hs : checkStage requests cfg i = s) (hs' : CheckStage.next s ⟨c, r⟩ = s') :
    (ledger requests email (cfg.answered i r k w)).outstanding + s.isOutstanding.toNat =
        (ledger requests email cfg).outstanding + s'.isOutstanding.toNat ∧
      (ledger requests email (cfg.answered i r k w)).wrong + s.isWrong.toNat =
        (ledger requests email cfg).wrong + s'.isWrong.toNat ∧
      (ledger requests email (cfg.answered i r k w)).failed =
        (ledger requests email cfg).failed + (isFailedCheck requests email (i, ⟨c, r⟩)).toNat := by
  have hout := loginsIn_answered requests email cfg i r k w (S := CheckStage.isOutstanding) rfl
  have hwrong := loginsIn_answered requests email cfg i r k w (S := CheckStage.isWrong) rfl
  have hfailed := failedChecks_answered requests email cfg i r k w
  rw [hs, hs', decide_eq_true hown, Bool.true_and, Bool.true_and] at hout hwrong
  exact ⟨hout, hwrong, hfailed⟩

theorem ledger_move {s s' : CheckStage} (hown : (requests i).loginEmail = some email)
    (hs : checkStage requests cfg i = s) (hs' : CheckStage.next s ⟨c, r⟩ = s')
    (hcounter : loginCounter w email = loginCounter cfg.world email)
    (hcheck : isFailedCheck requests email (i, ⟨c, r⟩) = false)
    (hmove : s' = s ∨ s = .start ∧ s' = .closed ∨ s = .passed ∧ s' = .closed) :
    (ledger requests email cfg).Step (ledger requests email (cfg.answered i r k w)) := by
  obtain ⟨hout, hwrong, hfailed⟩ := ledger_own (k := k) (w := w) hown hs hs'
  rw [hcheck] at hfailed
  have hcount : (ledger requests email (cfg.answered i r k w)).counter =
      (ledger requests email cfg).counter := congrArg (Option.getD · 0) hcounter
  obtain rfl | ⟨rfl, rfl⟩ | ⟨rfl, rfl⟩ := hmove
  · exact .same (Ledger.ext hcount (Nat.add_right_cancel hout) (Nat.add_right_cancel hwrong) hfailed)
  · exact .same (Ledger.ext hcount hout hwrong hfailed)
  · exact .settled _ hout.symm (Ledger.ext hcount rfl hwrong hfailed)

theorem ledger_get {email' : String} {r : Api.Answer (.redis (.get (.loginAttempts email')))}
    {k : Api.Answer (.redis (.get (.loginAttempts email'))) → Prog Api Response}
    (hth : Throttled requests email cfg (.run i ch))
    (hp : cfg.pool i = .call (.redis (.get (.loginAttempts email'))) k)
    (hs : checkStage requests cfg i = .start) (hr : (requests i).loginEmail = some email')
    (hx : gateway.exec i (.redis (.get (.loginAttempts email'))) ch cfg.world = some (r, w)) :
    (ledger requests email cfg).Step (ledger requests email (cfg.answered i r k w)) := by
  have hw : w = cfg.world := by
    obtain ⟨-, rfl⟩ | ⟨-, rfl⟩ := redis_cases hx <;> rfl
  by_cases hown : (requests i).loginEmail = some email
  swap
  · exact .same (ledger_other hown (by rw [hw]))
  have hemail : email' = email := Option.some.inj (hr.symm.trans hown)
  subst hemail
  obtain ⟨rfl, -⟩ | ⟨hok, -⟩ := redis_cases hx
  · exact ledger_move hown hs rfl (by rw [hw]) rfl (.inl rfl)
  have hok' : r = .ok (loginCounter cfg.world email') := hok
  subst hok'
  have hfails : ch.fails = false := by
    obtain ⟨e, -, he, -⟩ | ⟨hfails, -⟩ := exec_cases hx
    · cases he
    · exact hfails
  by_cases hlow : ACCOUNT_LOCKOUT_MAX_ATTEMPTS ≤ (loginCounter cfg.world email').getD 0
  · have hclosed : CheckStage.next .start ⟨.redis (.get (.loginAttempts email')),
        .ok (loginCounter cfg.world email')⟩ = .closed := if_pos hlow
    exact ledger_move hown hs hclosed (by rw [hw]) rfl (.inr (.inl ⟨rfl, rfl⟩))
  · have hpassed : CheckStage.next .start ⟨.redis (.get (.loginAttempts email')),
        .ok (loginCounter cfg.world email')⟩ = .passed := if_neg hlow
    obtain ⟨hout, hwrong, hfailed⟩ := ledger_own (k := k) (w := w) hown hs hpassed
    have hcount : (ledger requests email' (cfg.answered i
        (.ok (loginCounter cfg.world email')) k w)).counter =
          (ledger requests email' cfg).counter := by
      rw [hw]
      rfl
    have hroom := hth i ch k rfl hfails hp (Nat.lt_of_not_le hlow)
    exact .passed hroom (Ledger.ext hcount hout hwrong hfailed)

theorem ledger_incr {email' : String} {r : Api.Answer (.redis (.incr email'))}
    {k : Api.Answer (.redis (.incr email')) → Prog Api Response}
    (hs : checkStage requests cfg i = .passed ∨ checkStage requests cfg i = .wrong)
    (hr : (requests i).loginEmail = some email')
    (hx : gateway.exec i (.redis (.incr email')) ch cfg.world = some (r, w)) :
    (ledger requests email cfg).Step (ledger requests email (cfg.answered i r k w)) := by
  by_cases hown : (requests i).loginEmail = some email
  swap
  · refine .same (ledger_other hown ?_)
    have hne : email' ≠ email := by
      rintro rfl
      exact hown hr
    obtain ⟨-, rfl⟩ | ⟨-, rfl⟩ := redis_cases hx
    · rfl
    · exact loginCounter_incr_ne hne
  have hemail : email' = email := Option.some.inj (hr.symm.trans hown)
  subst hemail
  obtain ⟨rfl, rfl⟩ | ⟨hok, hw⟩ := redis_cases hx
  · obtain hs | hs := hs
    · exact ledger_move hown hs rfl rfl rfl (.inr (.inr ⟨rfl, rfl⟩))
    · exact ledger_move hown hs rfl rfl rfl (.inl rfl)
  have hcount : (loginCounter w email').getD 0 = (loginCounter cfg.world email').getD 0 + 1 := by
    rw [hw, loginCounter_incr]
    rfl
  obtain hs | hs := hs
  · have hclosed : CheckStage.next .passed ⟨.redis (.incr email'), r⟩ = .closed := rfl
    obtain ⟨hout, hwrong, hfailed⟩ := ledger_own (k := k) (w := w) hown hs hclosed
    exact .countedUnknown _ hout.symm (Ledger.ext hcount rfl hwrong hfailed)
  · have hclosed : CheckStage.next .wrong ⟨.redis (.incr email'), r⟩ = .closed := by rw [hok]; rfl
    obtain ⟨hout, hwrong, hfailed⟩ := ledger_own (k := k) (w := w) hown hs hclosed
    exact .counted _ _ hout.symm hwrong.symm (Ledger.ext hcount rfl rfl hfailed)

theorem ledger_del {email' : String} {r : Api.Answer (.redis (.del (.loginAttempts email')))}
    {k : Api.Answer (.redis (.del (.loginAttempts email'))) → Prog Api Response}
    (hr : (requests i).loginEmail = some email')
    (hx : gateway.exec i (.redis (.del (.loginAttempts email'))) ch cfg.world = some (r, w)) :
    (ledger requests email cfg).Step (ledger requests email (cfg.answered i r k w)) ∨
      loginCounter w email = none ∧
        ledger requests email (cfg.answered i r k w) = (ledger requests email cfg).clear := by
  by_cases hown : (requests i).loginEmail = some email
  swap
  · refine .inl (.same (ledger_other hown ?_))
    have hne : RedisKey.loginAttempts email ≠ .loginAttempts email' := by
      intro h
      cases h
      exact hown hr
    obtain ⟨-, rfl⟩ | ⟨-, rfl⟩ := redis_cases hx
    · rfl
    · exact Expiring.get_del_ne _ _ hne
  have hemail : email' = email := Option.some.inj (hr.symm.trans hown)
  subst hemail
  have hstage : CheckStage.next (checkStage requests cfg i)
      ⟨.redis (.del (.loginAttempts email')), r⟩ = checkStage requests cfg i := by
    cases checkStage requests cfg i <;> rfl
  obtain ⟨hout, hwrong, hfailed⟩ := ledger_own (k := k) (w := w) hown rfl hstage
  obtain ⟨rfl, rfl⟩ | ⟨-, hw⟩ := redis_cases hx
  · exact .inl (ledger_move hown rfl hstage rfl rfl (.inl rfl))
  · have hnone : loginCounter w email' = none := by
      rw [hw]
      exact Expiring.get_del_self _ _ _
    have hcount : (loginCounter w email').getD 0 = 0 := by rw [hnone]; rfl
    exact .inr ⟨hnone, Ledger.ext hcount (Nat.add_right_cancel hout) (Nat.add_right_cancel hwrong)
      hfailed⟩

theorem ledger_compare {plain hashed : String} {r : Api.Answer (.bcryptCompare plain hashed)}
    {k : Api.Answer (.bcryptCompare plain hashed) → Prog Api Response}
    (hs : checkStage requests cfg i = .passed)
    (hx : gateway.exec i (.bcryptCompare plain hashed) ch cfg.world = some (r, w)) :
    (ledger requests email cfg).Step (ledger requests email (cfg.answered i r k w)) := by
  obtain ⟨hr, rfl⟩ := bcryptCompare_cases hx
  by_cases hown : (requests i).loginEmail = some email
  swap
  · exact .same (ledger_other hown rfl)
  cases hvalid : cfg.world.bcrypt plain hashed with
  | true =>
    rw [hvalid] at hr
    subst hr
    exact ledger_move hown hs rfl rfl rfl (.inr (.inr ⟨rfl, rfl⟩))
  | false =>
    rw [hvalid] at hr
    subst hr
    have hfail : CheckStage.next .passed ⟨.bcryptCompare plain hashed, .ok false⟩ = .wrong := rfl
    obtain ⟨hout, hwrong, hfailed⟩ := ledger_own (k := k) (w := cfg.world) hown hs hfail
    have hcheck : isFailedCheck requests email (i, ⟨.bcryptCompare plain hashed, .ok false⟩) = true :=
      decide_eq_true hown
    rw [hcheck] at hfailed
    exact .failed (Ledger.ext rfl (Nat.add_right_cancel hout) hwrong hfailed)

/-- Every call is a step of the ledger, or clears it. -/
theorem ledger_answered (hth : Throttled requests email cfg (.run i ch))
    (hcall : cfg.pool i = .call c k)
    (hallow : CheckStage.Allows (requests i) (checkStage requests cfg i) c)
    (hx : gateway.exec i c ch cfg.world = some (r, w)) :
    (ledger requests email cfg).Step (ledger requests email (cfg.answered i r k w)) ∨
      loginCounter w email = none ∧
        ledger requests email (cfg.answered i r k w) = (ledger requests email cfg).clear := by
  by_cases hp : CheckStage.IsPlain c
  · -- nothing happens to the counter; a failing lookup ends the login
    have hcounter : loginCounter w email = loginCounter cfg.world email := loginCounter_plain hp hx
    left
    by_cases hown : (requests i).loginEmail = some email
    · refine ledger_move hown rfl rfl hcounter (isFailedCheck_plain hp) ?_
      obtain hsame | hclosed := next_plain hp (checkStage requests cfg i)
      · exact .inl hsame
      · exact .inr (.inr hclosed)
    · exact .same (ledger_other hown hcounter)
  unfold CheckStage.IsPlain at hp
  split at hp
  · exact .inl (ledger_get hth hcall hallow.1 hallow.2 hx)
  · exact .inl (ledger_incr hallow.1 hallow.2 hx)
  · exact ledger_del hallow hx
  · rename_i email' n
    have hcounter : loginCounter w email = loginCounter cfg.world email := by
      obtain ⟨-, rfl⟩ | ⟨-, rfl⟩ := redis_cases hx
      · rfl
      · exact loginCounter_expire hallow.1
    left
    by_cases hown : (requests i).loginEmail = some email
    · have hstage : CheckStage.next (checkStage requests cfg i)
          ⟨.redis (.expire (.loginAttempts email') n), r⟩ = checkStage requests cfg i := by
        cases checkStage requests cfg i <;> rfl
      exact ledger_move hown rfl hstage hcounter rfl (.inl rfl)
    · exact .same (ledger_other hown hcounter)
  · exact hallow.elim
  · exact .inl (ledger_compare hallow hx)
  · exact absurd trivial hp

end Exec

/-! ## Runs -/

def KeepsCounter (email : String) (cfg : Config Api ℕ World Response) (l : Label ℕ Choice Move) :
    Prop :=
  (loginCounter cfg.world email).isSome = true →
    ∀ cfg' ∈ gateway.step l cfg, (loginCounter cfg'.world email).isSome = true

section Run

variable {requests : ℕ → Request} {email : String} {cfg cfg' : Config Api ℕ World Response}
  {l : Label ℕ Choice Move} {ls : List (Label ℕ Choice Move)}

/-- Every request keeps to its stages. -/
def KeepsChecks (requests : ℕ → Request) (cfg : Config Api ℕ World Response) : Prop :=
  AllObey (fun i => checkMonitor (requests i)) (fun _ => .start) (fun _ _ _ => True) cfg

theorem keepsChecks_step (h : KeepsChecks requests cfg) (hs : gateway.step l cfg = some cfg') :
    KeepsChecks requests cfg' := by
  obtain ⟨i, ch, c, k, r, w, rfl, hp, hx, rfl⟩ | ⟨mv, w, rfl, hm, rfl⟩ := Machine.step_cases hs
  · exact h.answered hp w trivial
  · exact h

theorem ledger_step (h : KeepsChecks requests cfg) (hth : Throttled requests email cfg l)
    (hs : gateway.step l cfg = some cfg') :
    (ledger requests email cfg).Step (ledger requests email cfg') ∨
      loginCounter cfg'.world email = none ∧
        ledger requests email cfg' = (ledger requests email cfg).clear := by
  obtain ⟨i, ch, c, k, r, w, rfl, hp, hx, rfl⟩ | ⟨mv, w, rfl, hm, rfl⟩ := Machine.step_cases hs
  · exact ledger_answered hth hp (h.call hp) hx
  · obtain ⟨elapsed, -, rfl⟩ | ⟨channel, broker, rfl⟩ := move_cases hm
    · -- time passes: the counter is what it was, or it has expired
      cases hafter : loginCounter { cfg.world with now := cfg.world.now + elapsed } email with
      | none =>
        right
        refine ⟨rfl, Ledger.ext ?_ rfl rfl rfl⟩
        exact congrArg (Option.getD · 0) hafter
      | some n =>
        left
        have hbefore : loginCounter cfg.world email = some n :=
          Expiring.get_some_mono (Nat.le_add_right _ _) hafter
        exact .same (Ledger.ext (by simp [ledger, hafter, hbefore]) rfl rfl rfl)
    · exact .inl (.same rfl)

theorem wrong_le_outstanding : (ledger requests email cfg).wrong ≤
    (ledger requests email cfg).outstanding := by
  have hsub : loginsIn requests email cfg CheckStage.isWrong ⊆
      outstandingLogins requests email cfg := by
    intro i hi
    obtain ⟨hlog, hi⟩ := Finset.mem_filter.mp hi
    obtain ⟨hown, hwrong⟩ := Bool.and_eq_true_iff.mp hi
    exact Finset.mem_filter.mpr ⟨hlog,
      Bool.and_eq_true_iff.mpr ⟨hown, CheckStage.isOutstanding_of_isWrong hwrong⟩⟩
  exact Finset.card_le_card hsub

/-- In a throttled run whatever is outstanding fits below the limit. -/
theorem fits_run {w : World}
    (hth : gateway.Along (Throttled requests email) ls (.start w (Request.pool requests)))
    (hrun : gateway.run ls (.start w (Request.pool requests)) = some cfg) :
    KeepsChecks requests cfg ∧ (ledger requests email cfg).Fits := by
  refine Machine.run_induction_along
    (fun cfg => KeepsChecks requests cfg ∧ (ledger requests email cfg).Fits)
    (fun {cfg l cfg'} h hth hs => ⟨keepsChecks_step h.1 hs, ?_⟩)
    ⟨fun i => prog_checks (requests i), .inl rfl⟩ hth hrun
  obtain hstep | ⟨-, hclear⟩ := ledger_step h.1 hth hs
  · exact Ledger.fits_step h.2 hstep
  · rw [hclear]
    exact Ledger.fits_clear h.2

/-- What holds since a moment at which the counter was absent and `base` checks had failed. -/
structure Window (requests : ℕ → Request) (email : String) (base : ℕ)
    (cfg : Config Api ℕ World Response) : Prop where
  checks : KeepsChecks requests cfg
  room : (ledger requests email cfg).counter + (ledger requests email cfg).outstanding ≤
    ACCOUNT_LOCKOUT_MAX_ATTEMPTS
  covered : (ledger requests email cfg).failed ≤
    base + (ledger requests email cfg).counter + (ledger requests email cfg).wrong

theorem window_start (hchecks : KeepsChecks requests cfg) (hfits : (ledger requests email cfg).Fits)
    (habsent : loginCounter cfg.world email = none) :
    Window requests email (failedChecks requests email cfg) cfg := by
  have hzero : (ledger requests email cfg).counter = 0 := by
    show (loginCounter cfg.world email).getD 0 = 0
    rw [habsent]
    rfl
  have hfailed : (ledger requests email cfg).failed = failedChecks requests email cfg := rfl
  refine ⟨hchecks, ?_, by omega⟩
  obtain hnone | hroom := hfits
  · omega
  · exact hroom

theorem window_step {base : ℕ} (h : Window requests email base cfg)
    (hth : Throttled requests email cfg l) (hkeep : KeepsCounter email cfg l)
    (hs : gateway.step l cfg = some cfg') : Window requests email base cfg' := by
  have hchecks := keepsChecks_step h.checks hs
  obtain hstep | ⟨hnone, hclear⟩ := ledger_step h.checks hth hs
  · exact ⟨hchecks, Ledger.room_step h.room hstep, Ledger.covered_step h.covered hstep⟩
  · -- the counter is absent now, so it was absent before
    have habsent : loginCounter cfg.world email = none := by
      by_contra hpresent
      have hsome := hkeep (Option.isSome_iff_ne_none.mpr hpresent) cfg' hs
      rw [hnone] at hsome
      cases hsome
    have hzero : (ledger requests email cfg).counter = 0 := by
      show (loginCounter cfg.world email).getD 0 = 0
      rw [habsent]
      rfl
    have hsame : ledger requests email cfg' = ledger requests email cfg :=
      hclear.trans (Ledger.ext hzero.symm rfl rfl rfl)
    refine ⟨hchecks, ?_, ?_⟩
    · rw [hsame]
      exact h.room
    · rw [hsame]
      exact h.covered

/-- In a throttled run, from a moment at which the counter of the email is absent up to its next
disappearance, at most `ACCOUNT_LOCKOUT_MAX_ATTEMPTS` password checks for the email fail. -/
theorem failed_checks_bounded {w : World} {ls' : List (Label ℕ Choice Move)}
    (hth : gateway.Along (Throttled requests email) (ls ++ ls') (.start w (Request.pool requests)))
    (hrun : gateway.run ls (.start w (Request.pool requests)) = some cfg)
    (habsent : loginCounter cfg.world email = none) (hrun' : gateway.run ls' cfg = some cfg')
    (hkeep : gateway.Along (KeepsCounter email) ls' cfg) :
    failedChecks requests email cfg' ≤
      failedChecks requests email cfg + ACCOUNT_LOCKOUT_MAX_ATTEMPTS := by
  obtain ⟨hth₁, hth₂⟩ := Machine.along_append hth hrun
  obtain ⟨hchecks, hfits⟩ := fits_run hth₁ hrun
  have hwindow := Machine.run_induction_along
    (Window requests email (failedChecks requests email cfg))
    (fun h hP hs => window_step h hP.1 hP.2 hs) (window_start hchecks hfits habsent)
    (Machine.along_and hth₂ hkeep) hrun'
  have hroom := hwindow.room
  have hcovered := hwindow.covered
  have hle : (ledger requests email cfg').wrong ≤ (ledger requests email cfg').outstanding :=
    wrong_le_outstanding
  have hfailed : (ledger requests email cfg').failed = failedChecks requests email cfg' := rfl
  omega

end Run

/-! ## The run in which the limit is exceeded -/

def guesses (_ : ℕ) : Request := .login "ray@talentflow.dev" "guess" {}

/-- Six logins read the counter, and then all of them check the password and are counted. -/
def sixAtOnce : List (Label ℕ Choice Move) :=
  (List.range 6).map (fun i => .run i {}) ++
    (List.range 6).flatMap fun i => List.replicate 3 (.run i {})

instance (email : String) (cfg : Config Api ℕ World Response) (l : Label ℕ Choice Move) :
    Decidable (KeepsCounter email cfg l) := inferInstanceAs (Decidable (_ → _))

def Call.readsCounter? : Call → Option String
  | .redis (.get (.loginAttempts email)) => some email
  | _ => none

theorem readsCounter_of {p : Prog Api Response} {email : String}
    (h : p.next?.bind Call.readsCounter? = some email) :
    ∃ k, p = .call (.redis (.get (.loginAttempts email))) k := by
  obtain ⟨c, hc, hreads⟩ := Option.bind_eq_some_iff.mp h
  unfold Call.readsCounter? at hreads
  split at hreads
  · cases hreads
    exact Prog.eq_call_of_next? hc
  · cases hreads

instance (requests : ℕ → Request) (email : String) (cfg : Config Api ℕ World Response) :
    ∀ l, Decidable (Throttled requests email cfg l)
  | .run i ch => decidable_of_iff (ch.fails = false →
      (cfg.pool i).next?.bind Call.readsCounter? = some email →
      (loginCounter cfg.world email).getD 0 < ACCOUNT_LOCKOUT_MAX_ATTEMPTS →
      (loginCounter cfg.world email).getD 0 + (outstandingLogins requests email cfg).card <
        ACCOUNT_LOCKOUT_MAX_ATTEMPTS) <| by
    constructor
    · rintro h j ch' k ⟨⟩ hfails hp
      exact h hfails (by rw [hp]; rfl)
    · intro h hfails hreads
      obtain ⟨k, hp⟩ := readsCounter_of hreads
      exact h i ch k rfl hfails hp
  | .move _ => .isTrue nofun

/-- Five guesses are counted, the first two side by side; the sixth is turned away unchecked. -/
def upToTheLimit : List (Label ℕ Choice Move) :=
  [.run 0 {}, .run 1 {}] ++ List.replicate 5 (.run 0 {}) ++ List.replicate 4 (.run 1 {}) ++
    List.replicate 5 (.run 2 {}) ++ List.replicate 5 (.run 3 {}) ++ List.replicate 6 (.run 4 {}) ++
    List.replicate 3 (.run 5 {})

theorem failed_checks_bounded_guess :
    ∃ cfg, gateway.run upToTheLimit (.start seeded (Request.pool guesses)) = some cfg ∧
      (List.range 6).map (fun i => (cfg.outcome? i).map statusOf) = List.replicate 6 (some 401) ∧
      failedChecks guesses "ray@talentflow.dev" cfg ≤ 0 + ACCOUNT_LOCKOUT_MAX_ATTEMPTS := by
  have h : (gateway.run upToTheLimit (.start seeded (Request.pool guesses))).map
      (fun cfg => (List.range 6).map fun i => (cfg.outcome? i).map statusOf) =
        some (List.replicate 6 (some 401)) := by decide +kernel
  obtain ⟨cfg, hrun, hdone⟩ := Option.map_eq_some_iff.mp h
  have hempty : gateway.run [] (.start seeded (Request.pool guesses)) =
      some (.start seeded (Request.pool guesses)) := rfl
  exact ⟨cfg, hrun, hdone, failed_checks_bounded (by decide +kernel) hempty rfl
    hrun (by decide +kernel)⟩

theorem failed_checks_exceed :
    ∃ cfg, gateway.run sixAtOnce (.start seeded (Request.pool guesses)) = some cfg ∧
      loginCounter seeded "ray@talentflow.dev" = none ∧
      gateway.Along (KeepsCounter "ray@talentflow.dev") sixAtOnce
        (.start seeded (Request.pool guesses)) ∧
      failedChecks guesses "ray@talentflow.dev" (.start seeded (Request.pool guesses)) = 0 ∧
      failedChecks guesses "ray@talentflow.dev" cfg = ACCOUNT_LOCKOUT_MAX_ATTEMPTS + 1 := by
  have h : (gateway.run sixAtOnce (.start seeded (Request.pool guesses))).map
      (failedChecks guesses "ray@talentflow.dev") = some (ACCOUNT_LOCKOUT_MAX_ATTEMPTS + 1) := by
    decide +kernel
  obtain ⟨cfg, hrun, hfailed⟩ := Option.map_eq_some_iff.mp h
  exact ⟨cfg, hrun, rfl, by decide +kernel, rfl, hfailed⟩

end TalentFlow
