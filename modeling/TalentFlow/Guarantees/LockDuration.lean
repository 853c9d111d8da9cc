import TalentFlow.Guarantees.Acceptance
import TalentFlow.Guarantees.Lockout

/-!
# Guarantees.LockDuration

How long an account stays locked. The lock is the counter of failed attempts, which Redis drops
`ACCOUNT_LOCKOUT_DURATION_SECONDS` after the first of them. The log announces the same duration when
the last of them fills the counter, so the lock is over before the time that was announced.

* `attempt_cases`: what one login attempt does to the counter and the log.
* `counterInv_serial`: the counter expires a fixed time after one of the attempts.
* `lock_lasts_iff`: when a lock lasts as long as announced.
* `lock_too_short`: five failures within fifteen minutes, the right password soon after.
-/

namespace TalentFlow

open Data Async

/-- The attempts the counter stands for at this time. -/
def attemptsAt (w : World) (email : String) : Nat := (loginCounter w email).getD 0

/-- When Redis drops the counter. -/
def World.counterExpiry (w : World) (email : String) : Option Time :=
  (w.redis.entry (.loginAttempts email)).bind (·.expiresAt)

/-- The attempt was rejected because the account is locked. -/
def IsBlocked {α : Type} (o : Except Exception α) : Prop :=
  ∃ minutes : Nat, o = .error (.unauthorized ("Account temporarily locked. Try again in " ++
    toString minutes ++ " minute(s)."))

def LocksAccount (email : String) (w w' : World) : Prop :=
  ∃ events, w'.audit = w.audit ++ events ∧
    ∃ userId ip, .accountLocked userId email ip (ACCOUNT_LOCKOUT_DURATION_SECONDS / 60) ∈ events

/-! ## One attempt -/

/-- What a login attempt has done. -/
inductive AttemptStep {α : Type} (email : String) (w w' : World) (o : Except Exception α) : Prop
  | blocked (hfull : ACCOUNT_LOCKOUT_MAX_ATTEMPTS ≤ attemptsAt w email) (ho : IsBlocked o)
      (hentry : w'.redis.entry (.loginAttempts email) = w.redis.entry (.loginAttempts email))
      (hlog : ¬ LocksAccount email w w')
  | failed (hlow : attemptsAt w email < ACCOUNT_LOCKOUT_MAX_ATTEMPTS)
      (ho : o = .error (.unauthorized "Invalid credentials"))
      (hentry : w'.redis.entry (.loginAttempts email) = some ⟨attemptsAt w email + 1,
        if attemptsAt w email = 0 then some (w.now + seconds ACCOUNT_LOCKOUT_DURATION_SECONDS)
        else w.counterExpiry email⟩)
      (hlog : LocksAccount email w w' ↔ ACCOUNT_LOCKOUT_MAX_ATTEMPTS ≤ attemptsAt w email + 1)
  | signedIn (hlow : attemptsAt w email < ACCOUNT_LOCKOUT_MAX_ATTEMPTS) (ho : ∃ a, o = .ok a)
      (hentry : w'.redis.entry (.loginAttempts email) = none) (hlog : ¬ LocksAccount email w w')

section Attempt

variable {i : ℕ} {w w' : World} {email password : String} {context : LoginContext}

theorem not_blocked_invalid {α : Type} :
    ¬ IsBlocked (.error (.unauthorized "Invalid credentials") : Except Exception α) := by
  rintro ⟨minutes, h⟩
  have h : "Invalid credentials" = "Account temporarily locked. Try again in " ++
      toString minutes ++ " minute(s)." := by simpa using h
  have := congrArg (fun s => s.toList.head?) h
  simp [String.toList_append] at this

theorem locksAccount_iff {events : List SecurityEvent} (h : w'.audit = w.audit ++ events) :
    LocksAccount email w w' ↔
      ∃ userId ip, .accountLocked userId email ip (ACCOUNT_LOCKOUT_DURATION_SECONDS / 60) ∈ events := by
  constructor
  · rintro ⟨events', h', hlocked⟩
    rw [h] at h'
    rwa [List.append_cancel_left h']
  · rintro hlocked
    exact ⟨events, h, hlocked⟩

/-- The end of `handleFailedLogin`: the lock is logged together with the last of the attempts. -/
theorem finishes_reportFailure {userId : Option String} {attempts : Nat} {w₁ : World}
    {o : Except Exception Unit} (h : Finishes (alone i) (do
      audit (.loginFailed userId email context attempts ACCOUNT_LOCKOUT_MAX_ATTEMPTS)
      if ACCOUNT_LOCKOUT_MAX_ATTEMPTS ≤ attempts then
        audit (.accountLocked userId email context.ip (ACCOUNT_LOCKOUT_DURATION_SECONDS / 60)))
      w₁ o w') (haudit : w₁.audit = w.audit) :
    o = .ok () ∧ w'.now = w₁.now ∧ w'.redis = w₁.redis ∧
      (LocksAccount email w w' ↔ ACCOUNT_LOCKOUT_MAX_ATTEMPTS ≤ attempts) := by
  rw [finishes_bind_ok (finishes_audit _)] at h
  split at h
  · rename_i hfull
    obtain ⟨rfl, rfl⟩ := (finishes_audit _ _ _).mp h
    have hevents := List.append_assoc w.audit
      [.loginFailed userId email context attempts ACCOUNT_LOCKOUT_MAX_ATTEMPTS]
      [.accountLocked userId email context.ip (ACCOUNT_LOCKOUT_DURATION_SECONDS / 60)]
    refine ⟨rfl, rfl, rfl, ?_⟩
    rw [locksAccount_iff (by rw [← hevents, ← haudit])]
    exact iff_of_true ⟨userId, context.ip, by simp⟩ hfull
  · rename_i hlow
    obtain ⟨rfl, rfl⟩ := finishes_pure.mp h
    refine ⟨rfl, rfl, rfl, ?_⟩
    rw [locksAccount_iff (by rw [haudit])]
    exact iff_of_false (by rintro ⟨_, _, hmem⟩; simp at hmem) hlow

theorem finishes_handleFailedLogin {userId : Option String} {o : Except Exception Unit}
    (h : Finishes (alone i) (AuthService.handleFailedLogin email context userId) w o w') :
    o = .ok () ∧ w'.now = w.now ∧
      w'.redis.entry (.loginAttempts email) = some ⟨attemptsAt w email + 1,
        if attemptsAt w email = 0 then some (w.now + seconds ACCOUNT_LOCKOUT_DURATION_SECONDS)
        else w.counterExpiry email⟩ ∧
      (LocksAccount email w w' ↔ ACCOUNT_LOCKOUT_MAX_ATTEMPTS ≤ attemptsAt w email + 1) := by
  unfold AuthService.handleFailedLogin at h
  rw [finishes_bind_ok (finishes_redis (.incr email))] at h
  cases hget : loginCounter w email with
  | none =>
    have hattempts : attemptsAt w email = 0 := by rw [attemptsAt, hget]; rfl
    have hincr : (RedisCall.incr email).perform w.now w.redis =
        ((1 : Nat), w.redis.set (.loginAttempts email) (1 : Nat) none) := by
      simp only [RedisCall.perform]
      rw [show w.redis.get w.now (.loginAttempts email) = none from hget]
    rw [hincr] at h
    simp only [if_true] at h
    rw [finishes_bind_ok (finishes_redis _)] at h
    rw [hattempts]
    obtain ⟨rfl, hnow, hredis, hlocks⟩ := @finishes_reportFailure i w w' email context _ _ _ _ h rfl
    refine ⟨rfl, hnow, ?_, hlocks⟩
    rw [hredis]
    simp [RedisCall.perform, Entry.live]
  | some n =>
    have hattempts : attemptsAt w email = n := by rw [attemptsAt, hget]; rfl
    have hincr : (RedisCall.incr email).perform w.now w.redis =
        ((n + 1 : Nat), w.redis.set (.loginAttempts email) (n + 1 : Nat)
          (w.counterExpiry email)) := by
      simp only [RedisCall.perform]
      rw [show w.redis.get w.now (.loginAttempts email) = some n from hget]
      rfl
    rw [hincr] at h
    rw [hattempts]
    by_cases hzero : n = 0
    · subst hzero
      have hkeep : (w.redis.set (.loginAttempts email) (1 : Nat) (w.counterExpiry email)).get w.now
          (.loginAttempts email) = some (1 : Nat) := Expiring.get_set_keep hget _
      simp only [Nat.zero_add, if_true] at h
      rw [finishes_bind_ok (finishes_redis _)] at h
      obtain ⟨rfl, hnow, hredis, hlocks⟩ := @finishes_reportFailure i w w' email context _ _ _ _ h rfl
      refine ⟨rfl, hnow, ?_, hlocks⟩
      rw [hredis]
      simp [RedisCall.perform, hkeep]
    · have hne : ¬ n + 1 = 1 := by omega
      simp only [if_neg hne] at h
      obtain ⟨rfl, hnow, hredis, hlocks⟩ := @finishes_reportFailure i w w' email context _ _ _ _ h rfl
      refine ⟨rfl, hnow, ?_, hlocks⟩
      rw [hredis, if_neg hzero]
      simp

theorem attempt_failed {α : Type} {userId : Option String} {o : Except Exception α}
    (hlow : attemptsAt w email < ACCOUNT_LOCKOUT_MAX_ATTEMPTS) (h : Finishes (alone i) (do
      AuthService.handleFailedLogin email context userId
      throw (.unauthorized "Invalid credentials")) w o w') :
    w'.now = w.now ∧ AttemptStep email w w' o := by
  obtain ⟨_, w₁, hcount, rfl, rfl⟩ | ⟨e, hcount, -⟩ := finishes_bind.mp h
  · obtain ⟨-, hnow, hentry, hlog⟩ := finishes_handleFailedLogin hcount
    exact ⟨hnow, .failed hlow rfl hentry hlog⟩
  · cases (finishes_handleFailedLogin hcount).1

theorem attempt_signedIn {user : User} {o : Except Exception (Tokens × UserSummary)}
    (hlow : attemptsAt w email < ACCOUNT_LOCKOUT_MAX_ATTEMPTS) (h : Finishes (alone i) (do
      AuthService.clearLoginAttempts email
      let tokens ← AuthService.generateTokens user
      AuthService.storeRefreshToken user.id tokens.refreshToken
      audit (.loginSuccess user.id user.email context)
      return (tokens, user.summary)) w o w') :
    w'.now = w.now ∧ AttemptStep email w w' o := by
  unfold AuthService.clearLoginAttempts AuthService.generateTokens AuthService.storeRefreshToken at h
  simp only [bind_assoc, pure_bind] at h
  rw [finishes_bind_ok (finishes_redis (.del (.loginAttempts email)))] at h
  obtain ⟨id, w₁, hid, hrest⟩ | ⟨e, he, -⟩ := finishes_bind.mp h
  · obtain ⟨id, -, hok, rfl⟩ := (finishes_randomUUID _ _).mp hid
    cases hok
    rw [finishes_bind_ok finishes_dateNow] at hrest
    rw [finishes_bind_ok (finishes_redis (.set (.refreshToken user.id)
      (tokensOf user id w.now).refreshToken (7 * 24 * 60 * 60)))] at hrest
    rw [finishes_bind_ok (finishes_audit _)] at hrest
    obtain ⟨rfl, rfl⟩ := hrest
    refine ⟨rfl, .signedIn hlow ⟨_, rfl⟩ (by simp [RedisCall.perform]) ?_⟩
    rw [locksAccount_iff rfl]
    rintro ⟨_, _, hmem⟩
    simp at hmem
  · obtain ⟨u, -, hu, -⟩ := (finishes_randomUUID _ _).mp he
    cases hu

/-- Everything a login attempt can do. -/
theorem login_attempt {o : Except Exception (Tokens × UserSummary)}
    (h : Finishes (alone i) (AuthService.login email password context) w o w') :
    w'.now = w.now ∧ AttemptStep email w w' o := by
  unfold AuthService.login AuthService.checkAccountLockout AuthService.getLoginAttempts at h
  simp only [bind_assoc, pure_bind] at h
  rw [finishes_bind_ok (finishes_redis (.get (.loginAttempts email)))] at h
  by_cases hfull : ACCOUNT_LOCKOUT_MAX_ATTEMPTS ≤ attemptsAt w email
  · have hget : ACCOUNT_LOCKOUT_MAX_ATTEMPTS ≤
        ((RedisCall.get (.loginAttempts email)).perform w.now w.redis).1.getD (0 : Nat) := hfull
    unfold AuthService.getRemainingLockoutTime at h
    simp only [if_pos hget, bind_assoc, pure_bind] at h
    have hredis : ((RedisCall.ttl (.loginAttempts email)).perform w.now w.redis).2 = w.redis := by
      simp only [RedisCall.perform]
      split <;> rfl
    rw [finishes_bind_ok (finishes_redis (.ttl (.loginAttempts email)))] at h
    rw [finishes_bind_ok (finishes_audit _)] at h
    obtain ⟨rfl, rfl⟩ := h
    have hentry := congrArg (fun s : Redis => s.entry (.loginAttempts email)) hredis
    refine ⟨rfl, .blocked hfull ⟨_, rfl⟩ hentry ?_⟩
    rw [locksAccount_iff rfl]
    rintro ⟨_, _, hmem⟩
    simp at hmem
  · have hlow : attemptsAt w email < ACCOUNT_LOCKOUT_MAX_ATTEMPTS := Nat.lt_of_not_le hfull
    have hget : ¬ ACCOUNT_LOCKOUT_MAX_ATTEMPTS ≤
        ((RedisCall.get (.loginAttempts email)).perform w.now w.redis).1.getD (0 : Nat) := hfull
    simp only [if_neg hget, pure_bind] at h
    unfold UsersService.findByEmail at h
    rw [finishes_bind_ok (finishes_userFindUnique (.email email))] at h
    split at h
    · exact attempt_failed hlow h
    · rename_i user _
      rw [finishes_bind_ok (finishes_bcryptCompare password user.password)] at h
      split at h
      · exact attempt_failed hlow h
      · exact attempt_signedIn hlow h

theorem attempt_cases {o : Except Exception Response}
    (h : Finishes (alone i) (Request.login email password context).prog w o w') :
    w'.now = w.now ∧ AttemptStep email w w' o := by
  obtain ⟨⟨tokens, user⟩, w₁, hlogin, rfl, rfl⟩ | ⟨e, hlogin, rfl⟩ := finishes_bind.mp h
  · obtain ⟨hnow, hstep⟩ := login_attempt hlogin
    refine ⟨hnow, ?_⟩
    cases hstep with
    | blocked hfull ho hentry hlog =>
      obtain ⟨minutes, hminutes⟩ := ho
      cases hminutes
    | failed hlow ho hentry hlog => cases ho
    | signedIn hlow ho hentry hlog => exact .signedIn hlow ⟨_, rfl⟩ hentry hlog
  · obtain ⟨hnow, hstep⟩ := login_attempt hlogin
    refine ⟨hnow, ?_⟩
    cases hstep with
    | blocked hfull ho hentry hlog =>
      obtain ⟨minutes, hminutes⟩ := ho
      cases hminutes
      exact .blocked hfull ⟨minutes, rfl⟩ hentry hlog
    | failed hlow ho hentry hlog =>
      cases ho
      exact .failed hlow rfl hentry hlog
    | signedIn hlow ho hentry hlog =>
      obtain ⟨a, ha⟩ := ho
      cases ha

end Attempt

/-! ## Histories -/

def LeavesCounter (email : String) : Call → Prop
  | .redis (.set k _ _) => k ≠ .loginAttempts email
  | .redis (.del k) => k ≠ .loginAttempts email
  | .redis (.expire k _) => k ≠ .loginAttempts email
  | .redis (.incr email') => email' ≠ email
  | _ => True

structure SameCounter (email : String) (w w' : World) : Prop where
  now : w'.now = w.now
  entry : w'.redis.entry (.loginAttempts email) = w.redis.entry (.loginAttempts email)

section Frame

variable {i : ℕ} {w w' : World} {email : String}

theorem sameCounter_exec {ch : Choice} {c : Call} {a : Api.Answer c} (hc : LeavesCounter email c)
    (h : gateway.exec i c ch w = some (a, w')) : SameCounter email w w' := by
  refine ⟨(exec_frame h).now, ?_⟩
  by_cases hredis : ∃ c', c = .redis c'
  · obtain ⟨c', rfl⟩ := hredis
    obtain ⟨-, rfl⟩ | ⟨-, rfl⟩ := redis_cases h
    · rfl
    cases c' with
    | get k => rfl
    | existsKey k => rfl
    | ttl k =>
      simp only [RedisCall.perform]
      split <;> rfl
    | set k v n => exact Expiring.entry_set_ne _ _ _ (Ne.symm hc)
    | del k => exact Expiring.entry_del_ne _ (Ne.symm hc)
    | expire k n =>
      simp only [RedisCall.perform]
      split
      · rfl
      · exact Expiring.entry_set_ne _ _ _ (Ne.symm hc)
    | incr email' =>
      have hne : (RedisKey.loginAttempts email) ≠ .loginAttempts email' := by
        intro heq
        cases heq
        exact hc rfl
      simp only [RedisCall.perform]
      split
      · exact Expiring.entry_set_ne _ _ _ hne
      · exact Expiring.entry_set_ne _ _ _ hne
  · rw [(exec_frame h).redis fun c' hc' => hredis ⟨c', hc'⟩]

theorem leavesCounter_plain {c : Call} (hc : CheckStage.IsPlain c) : LeavesCounter email c := by
  unfold LeavesCounter
  split
  · rintro rfl
    exact hc
  · rintro rfl
    exact hc
  · rintro rfl
    exact hc
  · exact hc.elim
  · trivial

theorem sameCounter_request {r : Request} (hr : r.loginEmail ≠ some email)
    {o : Except Exception Response} (h : Finishes (alone i) r.prog w o w') :
    SameCounter email w w' := by
  have hcalls : r.prog.Calls (LeavesCounter email) := by
    refine calls_mono (prog_calls r) fun c hc => ?_
    rcases hc with hquiet | hfoot
    · exact leavesCounter_plain (plain_quiet c hquiet)
    cases hlogin : r.loginEmail with
    | none => exact leavesCounter_plain (footprint_plain hlogin hfoot)
    | some email' =>
      have hne : email' ≠ email := fun heq => hr (by rw [hlogin, heq])
      cases r with
      | login email'' password context =>
        cases hlogin
        obtain rfl | rfl | rfl | ⟨n, rfl⟩ | rfl | ⟨hashed, rfl⟩ | rfl | ⟨id, token, n, rfl⟩ := hfoot
        · trivial
        · trivial
        · exact hne
        · exact fun heq => hne (RedisKey.loginAttempts.inj heq)
        · exact fun heq => hne (RedisKey.loginAttempts.inj heq)
        · trivial
        · trivial
        · exact fun heq => (by cases heq)
      | _ => cases hlogin
  exact finishes_keeps (SameCounter email w)
    (fun hc ⟨_, _, hx⟩ hsame => ⟨(sameCounter_exec hc hx).now.trans hsame.now,
      (sameCounter_exec hc hx).entry.trans hsame.entry⟩) hcalls h ⟨rfl, rfl⟩

/-- What has happened is an attempt to log in with this email, or leaves the counter alone while
time goes on. -/
theorem happens_cases {h : Happening} (hh : Happens h w w') :
    (∃ password context o, h = .answered w.now (.login email password context) o ∧
      w'.now = w.now ∧ AttemptStep email w w' o) ∨
    ((∀ t password context o, h ≠ .answered t (.login email password context) o) ∧
      w.now ≤ w'.now ∧
      w'.redis.entry (.loginAttempts email) = w.redis.entry (.loginAttempts email)) := by
  cases h with
  | moved mv =>
    right
    refine ⟨by simp, ?_⟩
    obtain ⟨elapsed, -, rfl⟩ | ⟨channel, broker, rfl⟩ := move_cases hh
    · exact ⟨Nat.le_add_right _ _, rfl⟩
    · exact ⟨le_rfl, rfl⟩
  | answered t r o =>
    obtain ⟨rfl, i, hfinish⟩ := hh
    by_cases hr : r.loginEmail = some email
    · left
      cases r with
      | login email' password context =>
        cases hr
        exact ⟨password, context, o, rfl, attempt_cases hfinish⟩
      | _ => cases hr
    · right
      have hsame := sameCounter_request hr hfinish
      refine ⟨?_, hsame.now.ge, hsame.entry⟩
      intro t password context o' heq
      cases heq
      exact hr rfl

theorem serial_time {hs : List Happening} (h : Serial hs w w') : w.now ≤ w'.now ∧
    ∀ t r o, .answered t r o ∈ hs → w.now ≤ t := by
  induction hs generalizing w with
  | nil =>
    cases h
    exact ⟨le_rfl, fun t r o hmem => (by cases hmem)⟩
  | cons x hs ih =>
    obtain ⟨w₁, hx, hrest⟩ := h
    obtain ⟨hend, htimes⟩ := ih hrest
    have hstep : w.now ≤ w₁.now := by
      obtain ⟨_, _, _, -, hnow, -⟩ | ⟨-, hle, -⟩ := @happens_cases w w₁ "" x hx
      · exact hnow.ge
      · exact hle
    refine ⟨hstep.trans hend, fun t r o hmem => ?_⟩
    rcases List.mem_cons.mp hmem with rfl | hmem
    · exact hx.1.ge
    · exact hstep.trans (htimes t r o hmem)

end Frame

/-- An attempt to log in with this email was made at this time. -/
def AttemptedAt (email : String) (t : Time) (hs : List Happening) : Prop :=
  ∃ password context o, .answered t (.login email password context) o ∈ hs

/-- The counter expires a fixed time after an attempt of the history. -/
def CounterInv (email : String) (hs : List Happening) (w : World) : Prop :=
  ∀ e, w.redis.entry (.loginAttempts email) = some e → ∃ t ≤ w.now, AttemptedAt email t hs ∧
    e.expiresAt = some (t + seconds ACCOUNT_LOCKOUT_DURATION_SECONDS)

section Counter

variable {w w' w₀ : World} {email : String} {hs : List Happening}

theorem AttemptedAt.append {t : Time} (h : AttemptedAt email t hs) (hs' : List Happening) :
    AttemptedAt email t (hs ++ hs') := by
  obtain ⟨password, context, o, hmem⟩ := h
  exact ⟨password, context, o, List.mem_append_left _ hmem⟩

/-- A counter that stands for attempts is there, with its expiry ahead. -/
theorem counter_of_attempts (h : attemptsAt w email ≠ 0) :
    ∃ e, w.redis.entry (.loginAttempts email) = some e ∧ e.live w.now = some (attemptsAt w email) := by
  unfold attemptsAt loginCounter at h ⊢
  cases hget : w.redis.get w.now (.loginAttempts email) with
  | none =>
    rw [hget] at h
    exact absurd rfl h
  | some n =>
    obtain ⟨e, he, hlive⟩ := Option.bind_eq_some_iff.mp hget
    exact ⟨e, he, hlive⟩

theorem counterInv_happens {h : Happening} (hinv : CounterInv email hs w) (hh : Happens h w w') :
    CounterInv email (hs ++ [h]) w' := by
  intro e he
  obtain ⟨password, context, o, rfl, hnow, hstep⟩ | ⟨-, hnow, hsame⟩ :=
    @happens_cases w w' email h hh
  · rw [hnow]
    cases hstep with
    | blocked _ _ hentry _ =>
      obtain ⟨t, ht, hat, hexp⟩ := hinv e (hentry ▸ he)
      exact ⟨t, ht, hat.append _, hexp⟩
    | failed _ _ hentry _ =>
      rw [hentry] at he
      cases he
      by_cases hzero : attemptsAt w email = 0
      · exact ⟨w.now, le_rfl, ⟨password, context, o, by simp⟩, if_pos hzero⟩
      · obtain ⟨e₀, he₀, -⟩ := counter_of_attempts hzero
        obtain ⟨t, ht, hat, hexp⟩ := hinv e₀ he₀
        refine ⟨t, ht, hat.append _, ?_⟩
        rw [if_neg hzero, World.counterExpiry, he₀]
        exact hexp
    | signedIn _ _ hentry _ =>
      rw [hentry] at he
      cases he
  · obtain ⟨t, ht, hat, hexp⟩ := hinv e (hsame ▸ he)
    exact ⟨t, ht.trans hnow, hat.append _, hexp⟩

theorem counterInv_serial {hs' : List Happening} (hinv : CounterInv email hs w)
    (h : Serial hs' w w') : CounterInv email (hs ++ hs') w' := by
  induction hs' generalizing w hs with
  | nil =>
    cases h
    rwa [List.append_nil]
  | cons x hs' ih =>
    obtain ⟨w₁, hx, hrest⟩ := h
    rw [List.append_cons]
    exact ih (counterInv_happens hinv hx) hrest

end Counter

/-! ## Locks -/

/-- Every attempt until the lock has lasted as long as announced is rejected as locked. -/
def LockLasts (email : String) (lockedAt : Time) (hs : List Happening) : Prop :=
  ∀ t password context o, .answered t (.login email password context) o ∈ hs →
    t < lockedAt + seconds ACCOUNT_LOCKOUT_DURATION_SECONDS → IsBlocked o

section Lock

variable {w w₀ w₁ w₂ : World} {email : String} {hs hs' : List Happening} {expiry : Time}

theorem attemptsAt_full {n : Nat}
    (h : w.redis.entry (.loginAttempts email) = some ⟨n, some expiry⟩) :
    attemptsAt w email = if w.now < expiry then n else 0 := by
  rw [attemptsAt, loginCounter, Expiring.get, h, Option.bind_some, Expiring.live_until]
  by_cases hlive : w.now < expiry
  · rw [if_pos hlive, if_pos hlive, Option.getD_some]
  · rw [if_neg hlive, if_neg hlive, Option.getD_none]

theorem AttemptStep.of_full {α : Type} {o : Except Exception α} (h : AttemptStep email w w₁ o)
    (hfull : w.redis.entry (.loginAttempts email) =
      some ⟨ACCOUNT_LOCKOUT_MAX_ATTEMPTS, some expiry⟩) (hlive : w.now < expiry) :
    IsBlocked o ∧ w₁.redis.entry (.loginAttempts email) =
      some ⟨ACCOUNT_LOCKOUT_MAX_ATTEMPTS, some expiry⟩ := by
  have hcount := (attemptsAt_full hfull).trans (if_pos hlive)
  cases h with
  | blocked _ ho hkept _ => exact ⟨ho, hkept.trans hfull⟩
  | failed hlow _ _ _ => exact absurd hcount hlow.ne
  | signedIn hlow _ _ _ => exact absurd hcount hlow.ne

theorem AttemptStep.of_expired {α : Type} {o : Except Exception α} (h : AttemptStep email w w₁ o)
    (hfull : w.redis.entry (.loginAttempts email) =
      some ⟨ACCOUNT_LOCKOUT_MAX_ATTEMPTS, some expiry⟩) (hexpired : ¬ w.now < expiry) :
    ¬ IsBlocked o := by
  have hcount := (attemptsAt_full hfull).trans (if_neg hexpired)
  cases h with
  | blocked hmax _ _ _ =>
    rw [hcount] at hmax
    exact absurd hmax (by decide)
  | failed _ ho _ _ => exact ho ▸ not_blocked_invalid
  | signedIn _ ho _ _ =>
    obtain ⟨a, rfl⟩ := ho
    rintro ⟨minutes, h⟩
    cases h

/-- As long as nobody tries between the expiry of the counter and `unlockAt`, every attempt before
`unlockAt` finds the full counter. -/
theorem blocked_until {unlockAt : Time} (h : Serial hs w w₂)
    (hfull : w.redis.entry (.loginAttempts email) =
      some ⟨ACCOUNT_LOCKOUT_MAX_ATTEMPTS, some expiry⟩ ∨ unlockAt ≤ w.now)
    (hnone : ∀ t, AttemptedAt email t hs → ¬ (expiry ≤ t ∧ t < unlockAt)) :
    ∀ t password context o, .answered t (.login email password context) o ∈ hs → t < unlockAt →
      IsBlocked o := by
  induction hs generalizing w with
  | nil => intro t password context o hmem; cases hmem
  | cons x hs ih =>
    obtain ⟨w₁, hx, hrest⟩ := h
    have hlater : ∀ t, AttemptedAt email t hs → ¬ (expiry ≤ t ∧ t < unlockAt) := by
      rintro t ⟨password, context, o, hmem⟩
      exact hnone t ⟨password, context, o, List.mem_cons_of_mem _ hmem⟩
    obtain ⟨password₀, context₀, o₀, rfl, hnow, hstep⟩ | ⟨hother, hnow, hsame⟩ :=
      @happens_cases w w₁ email x hx
    · have hnot := hnone w.now ⟨password₀, context₀, o₀, List.mem_cons_self⟩
      have hblocked : w.now < unlockAt → IsBlocked o₀ ∧ w₁.redis.entry (.loginAttempts email) =
          some ⟨ACCOUNT_LOCKOUT_MAX_ATTEMPTS, some expiry⟩ := by
        intro hearly
        have hlive : w.now < expiry := by
          by_contra hexpired
          exact hnot ⟨Nat.le_of_not_lt hexpired, hearly⟩
        exact hstep.of_full (hfull.resolve_right (Nat.not_le_of_lt hearly)) hlive
      have hnext : w₁.redis.entry (.loginAttempts email) =
          some ⟨ACCOUNT_LOCKOUT_MAX_ATTEMPTS, some expiry⟩ ∨ unlockAt ≤ w₁.now := by
        by_cases hearly : w.now < unlockAt
        · exact .inl (hblocked hearly).2
        · exact .inr (hnow ▸ Nat.le_of_not_lt hearly)
      intro t password context o hmem hearly
      rcases List.mem_cons.mp hmem with heq | hmem
      · cases heq
        exact (hblocked hearly).1
      · exact ih hrest hnext hlater t password context o hmem hearly
    · have hnext : w₁.redis.entry (.loginAttempts email) =
          some ⟨ACCOUNT_LOCKOUT_MAX_ATTEMPTS, some expiry⟩ ∨ unlockAt ≤ w₁.now :=
        hfull.imp (hsame.trans ·) (·.trans hnow)
      intro t password context o hmem hearly
      rcases List.mem_cons.mp hmem with heq | hmem
      · exact absurd heq.symm (hother t password context o)
      · exact ih hrest hnext hlater t password context o hmem hearly

/-- The first attempt after the counter has expired is not blocked. -/
theorem not_blocked_after {unlockAt : Time} (h : Serial hs w w₂)
    (hfull : w.redis.entry (.loginAttempts email) =
      some ⟨ACCOUNT_LOCKOUT_MAX_ATTEMPTS, some expiry⟩)
    (hlasts : ∀ t password context o, .answered t (.login email password context) o ∈ hs →
      t < unlockAt → IsBlocked o) {t : Time} (hat : AttemptedAt email t hs) (hlate : expiry ≤ t) :
    unlockAt ≤ t := by
  induction hs generalizing w with
  | nil =>
    obtain ⟨password, context, o, hmem⟩ := hat
    cases hmem
  | cons x hs ih =>
    obtain ⟨w₁, hx, hrest⟩ := h
    have hlater : ∀ t password context o, .answered t (.login email password context) o ∈ hs →
        t < unlockAt → IsBlocked o := fun t password context o hmem =>
      hlasts t password context o (List.mem_cons_of_mem _ hmem)
    obtain ⟨password, context, o, hmem⟩ := hat
    obtain ⟨password₀, context₀, o₀, rfl, hnow, hstep⟩ | ⟨hother, hnow, hsame⟩ :=
      @happens_cases w w₁ email x hx
    · -- it is this attempt, or one that is not earlier
      have hle : w.now ≤ t := by
        rcases List.mem_cons.mp hmem with heq | hmem
        · cases heq
          exact le_rfl
        · exact hnow ▸ (serial_time hrest).2 _ _ _ hmem
      by_cases hlive : w.now < expiry
      · have hkept := (hstep.of_full hfull hlive).2
        rcases List.mem_cons.mp hmem with heq | hmem
        · cases heq
          exact absurd hlive (Nat.not_lt_of_le hlate)
        · exact ih hrest hkept hlater ⟨password, context, o, hmem⟩
      · have hlate₀ : ¬ w.now < unlockAt := fun hearly => hstep.of_expired hfull hlive
          (hlasts w.now password₀ context₀ o₀ List.mem_cons_self hearly)
        exact (Nat.le_of_not_lt hlate₀).trans hle
    · rcases List.mem_cons.mp hmem with heq | hmem
      · exact absurd heq.symm (hother t password context o)
      · exact ih hrest (hsame.trans hfull) hlater ⟨password, context, o, hmem⟩

/-- The counter was started by an attempt at `t₁`, not by the one that fills it: an account that is
locked at `T` stays locked for the announced time if and only if nobody tries to log in between the
end of that time counted from `t₁` and its end counted from `T`. -/
theorem lock_lasts_iff {T : Time} {password : String} {context : LoginContext}
    {o : Except Exception Response} (h₀ : w₀.redis.entry (.loginAttempts email) = none)
    (hbefore : Serial hs w₀ w) (hattempt : Happens (.answered T (.login email password context) o) w w₁)
    (hlock : LocksAccount email w w₁) (hafter : Serial hs' w₁ w₂) :
    ∃ t₁ ≤ T, AttemptedAt email t₁ hs ∧
      w.counterExpiry email = some (t₁ + seconds ACCOUNT_LOCKOUT_DURATION_SECONDS) ∧
      (LockLasts email T hs' ↔ ∀ t, AttemptedAt email t hs' →
        ¬ (t₁ + seconds ACCOUNT_LOCKOUT_DURATION_SECONDS ≤ t ∧
          t < T + seconds ACCOUNT_LOCKOUT_DURATION_SECONDS)) := by
  obtain ⟨rfl, i, hfinish⟩ := hattempt
  have hinv : CounterInv email ([] ++ hs) w :=
    counterInv_serial (fun e he => (by rw [h₀] at he; cases he)) hbefore
  obtain ⟨-, hstep⟩ := attempt_cases hfinish
  cases hstep with
  | blocked _ _ _ hlog => exact absurd hlock hlog
  | signedIn _ _ _ hlog => exact absurd hlock hlog
  | failed hlow _ hentry hlog =>
    have hlast : attemptsAt w email + 1 = ACCOUNT_LOCKOUT_MAX_ATTEMPTS :=
      le_antisymm hlow (hlog.mp hlock)
    have hsome : attemptsAt w email ≠ 0 := by
      intro hzero
      rw [hzero] at hlast
      exact absurd hlast (by decide)
    obtain ⟨e, he, -⟩ := counter_of_attempts hsome
    obtain ⟨t₁, ht₁, hat, hexp⟩ := hinv e he
    have hexpiry : w.counterExpiry email =
        some (t₁ + seconds ACCOUNT_LOCKOUT_DURATION_SECONDS) := by
      rw [World.counterExpiry, he]
      exact hexp
    rw [if_neg hsome, hlast, hexpiry] at hentry
    refine ⟨t₁, ht₁, hat, hexpiry, fun hlasts t hatt ⟨hlate, hearly⟩ => ?_, fun hnone => ?_⟩
    · exact absurd hearly (Nat.not_lt_of_le (not_blocked_after hafter hentry hlasts hatt hlate))
    · exact blocked_until hafter (.inl hentry) hnone

end Lock

/-! ## Ray's account -/

def raysEmail : String := "ray@talentflow.dev"

def guess (calls : Nat) : Turn := .request (.login raysEmail "guess" {}) (List.replicate calls {})

/-- Four wrong passwords, the last three of them fourteen minutes after the first. -/
def fourGuesses : List Turn :=
  [guess 6, .move (.tick (seconds (14 * 60))), guess 5, guess 5, guess 5]

def signsIn : List Choice := [{}, {}, {}, {}, { uuid := "t-ray" }, {}, {}, {}]

def Happening.status : Happening → Option Nat
  | .answered _ _ o => some (statusOf o)
  | .moved _ => none

theorem fifth_locks {w w₁ : World} {h : Happening} (hplay : (guess 6).play w = some (h, w₁))
    (hattempts : attemptsAt w raysEmail = 4) (hrejected : h.status = some 401) :
    ∃ o, Happens (.answered w.now (.login raysEmail "guess" {}) o) w w₁ ∧
      LocksAccount raysEmail w w₁ := by
  obtain ⟨o, rfl, hh⟩ := play_request hplay
  refine ⟨o, hh, ?_⟩
  obtain ⟨-, i, hfinish⟩ := hh
  obtain ⟨-, hstep⟩ := attempt_cases hfinish
  cases hstep with
  | blocked hfull _ _ _ =>
    rw [hattempts] at hfull
    exact absurd hfull (by decide)
  | failed _ _ _ hlog => exact hlog.mpr (by rw [hattempts]; decide)
  | signedIn _ ho _ _ =>
    obtain ⟨a, rfl⟩ := ho
    cases hrejected

/-- Half a minute after the account was locked, Ray is turned away with the right password. -/
theorem lock_lasts_iff_ray : ∃ hs hs' w w₁ w₂ o, Serial hs seeded w ∧
    Happens (.answered 840000 (.login raysEmail "guess" {}) o) w w₁ ∧
    LocksAccount raysEmail w w₁ ∧ Serial hs' w₁ w₂ ∧ AttemptedAt raysEmail 870000 hs' ∧
    LockLasts raysEmail 840000 hs' := by
  have h : ((play fourGuesses seeded).bind fun p => ((guess 6).play p.2).bind fun q =>
      ((Turn.request (.login raysEmail "Ray-2024!" {}) (List.replicate 3 {})).play
        { q.2 with now := q.2.now + 30000 }).map fun _ =>
        ((p.2.now, attemptsAt p.2 raysEmail, p.2.counterExpiry raysEmail), q.1.status, q.2.now)) =
      some ((840000, 4, some 900000), some 401, 840000) := by decide +kernel
  obtain ⟨⟨hs, w⟩, hbefore, h⟩ := Option.bind_eq_some_iff.mp h
  obtain ⟨⟨x, w₁⟩, hfifth, h⟩ := Option.bind_eq_some_iff.mp h
  obtain ⟨⟨y, w₂⟩, hlast, h⟩ := Option.map_eq_some_iff.mp h
  obtain ⟨⟨hnow, hattempts, hexpiry⟩, hrejected, hnow₁⟩ : (_ ∧ _ ∧ _) ∧ _ ∧ _ := by
    simpa only [Prod.mk.injEq] using h
  dsimp only at hbefore hfifth hlast hnow hattempts hexpiry hrejected hnow₁
  obtain ⟨o, hattempt, hlocks⟩ := fifth_locks hfifth hattempts hrejected
  rw [hnow] at hattempt
  obtain ⟨o', rfl, hh⟩ := play_request hlast
  have hserial : Serial [.moved (.tick 30000), .answered (w₁.now + 30000) _ o'] w₁ w₂ :=
    ⟨{ w₁ with now := w₁.now + 30000 }, rfl, w₂, hh, rfl⟩
  rw [hnow₁] at hserial
  refine ⟨hs, _, w, w₁, w₂, o, play_serial hbefore, hattempt, hlocks, hserial,
    ⟨"Ray-2024!", {}, o', by simp⟩, ?_⟩
  obtain ⟨t₁, -, -, ht₁, hiff⟩ :=
    lock_lasts_iff (rfl : seeded.redis.entry (.loginAttempts raysEmail) = none)
      (play_serial hbefore) hattempt hlocks hserial
  rw [hexpiry, Option.some.injEq] at ht₁
  refine hiff.mpr ?_
  rintro t ⟨password, context, o'', hmem⟩ ⟨hlate, -⟩
  rw [← ht₁] at hlate
  simp at hmem
  obtain ⟨rfl, -⟩ := hmem
  exact absurd hlate (by decide)

/-- Two minutes after the account was locked, the right password is accepted. -/
theorem lock_too_short : ∃ hs hs' w w₁ w₂ o, Serial hs seeded w ∧
    Happens (.answered 840000 (.login raysEmail "guess" {}) o) w w₁ ∧
    LocksAccount raysEmail w w₁ ∧ Serial hs' w₁ w₂ ∧ ¬ LockLasts raysEmail 840000 hs' := by
  have h : ((play fourGuesses seeded).bind fun p => ((guess 6).play p.2).bind fun q =>
      ((Turn.request (.login raysEmail "Ray-2024!" {}) signsIn).play
        { q.2 with now := q.2.now + 120000 }).map fun r =>
        ((p.2.now, attemptsAt p.2 raysEmail), q.1.status, q.2.now, r.1.status)) =
      some ((840000, 4), some 401, 840000, some 200) := by decide +kernel
  obtain ⟨⟨hs, w⟩, hbefore, h⟩ := Option.bind_eq_some_iff.mp h
  obtain ⟨⟨x, w₁⟩, hfifth, h⟩ := Option.bind_eq_some_iff.mp h
  obtain ⟨⟨y, w₂⟩, hlast, h⟩ := Option.map_eq_some_iff.mp h
  obtain ⟨⟨hnow, hattempts⟩, hrejected, hnow₁, hstatus⟩ : (_ ∧ _) ∧ _ ∧ _ ∧ _ := by
    simpa only [Prod.mk.injEq] using h
  dsimp only at hbefore hfifth hlast hnow hattempts hrejected hnow₁ hstatus
  obtain ⟨o, hattempt, hlocks⟩ := fifth_locks hfifth hattempts hrejected
  rw [hnow] at hattempt
  obtain ⟨o', rfl, hh⟩ := play_request hlast
  have hserial : Serial [.moved (.tick 120000), .answered (w₁.now + 120000) _ o'] w₁ w₂ :=
    ⟨{ w₁ with now := w₁.now + 120000 }, rfl, w₂, hh, rfl⟩
  refine ⟨hs, _, w, w₁, w₂, o, play_serial hbefore, hattempt, hlocks, hserial, fun hlasts => ?_⟩
  obtain ⟨minutes, hblocked⟩ := hlasts (w₁.now + 120000) "Ray-2024!" {} o' (by simp)
    (by rw [hnow₁]; decide)
  rw [hblocked] at hstatus
  cases hstatus

end TalentFlow
