import TalentFlow.Async.Abandon
import TalentFlow.Guarantees.LockDuration

/-!
# Guarantees.TemporaryLock

Whether every lock ends. The counter of failed attempts is created by `INCR`, which gives it no
expiry; the login that has created it then sends `EXPIRE`. In between the counter has no end, and
it is that login which owes it one.

* `prog_pays`: a login that owes an expiry does nothing before it has set it.
* `lock_temporary`: once nobody is logging in for the email the counter is absent or will expire,
  provided that no `EXPIRE` of it fails and no login is given up while it owes the expiry.
* `lock_endless`: the first of five failed logins is given up between `INCR` and `EXPIRE`.
-/

namespace TalentFlow

open Data Async

/-- The counter does not exist, or Redis is going to drop it. -/
def Temporary (w : World) (email : String) : Prop :=
  loginCounter w email = none ∨ (w.counterExpiry email).isSome = true

instance (w : World) (email : String) : Decidable (Temporary w email) :=
  inferInstanceAs (Decidable (_ ∨ _))

/-- No login for the email has begun and is still going on. -/
def NoLoginInFlight (requests : ℕ → Request) (email : String)
    (s : Attended Api ℕ World Response) : Prop :=
  ∀ i, (requests i).loginEmail = some email → i ∉ s.abandoned →
    s.cfg.trace i = [] ∨ (s.cfg.outcome? i).isSome = true

/-- Where a login is about to set the expiry of the counter, it is not given up and the command
does not fail. -/
def SetsExpiry (email : String) (s : Attended Api ℕ World Response)
    (h : Incident ℕ Choice Move) : Prop :=
  ∀ i n k, s.cfg.pool i = .call (.redis (.expire (.loginAttempts email) n)) k →
    h ≠ .abandon i ∧ ∀ ch, h = .step (.run i ch) → ch.fails = false

/-! ## What a login owes -/

/-- Whether the request has created a counter that has no expiry yet. -/
inductive ExpiryStage where
  | settled
  | owing
  deriving DecidableEq

namespace ExpiryStage

def next : ExpiryStage → Event Api → ExpiryStage
  | settled, ⟨.redis (.incr _), .ok attempts⟩ => if attempts = (1 : Nat) then owing else settled
  | _, _ => settled

/-- A request counts its own email, and pays what it owes at once. -/
def Allows (r : Request) : ExpiryStage → Call → Prop
  | settled, .redis (.incr email) => r.loginEmail = some email
  | settled, .redis (.set (.loginAttempts _) _ _) => False
  | settled, _ => True
  | owing, .redis (.expire (.loginAttempts email) _) => r.loginEmail = some email
  | owing, _ => False

end ExpiryStage

def expiryMonitor (r : Request) : Monitor Api ExpiryStage where
  next := ExpiryStage.next
  call := ExpiryStage.Allows r
  answer _ _ _ := True

section Programs

variable {α : Type} {email password : String} {context : LoginContext}

/-- The calls that neither count an attempt nor write a counter. -/
def CountsNothing : Call → Prop
  | .redis (.incr _) => False
  | .redis (.set (.loginAttempts _) _ _) => False
  | _ => True

theorem countsNothing_plain {c : Call} (h : CheckStage.IsPlain c) : CountsNothing c := by
  unfold CountsNothing
  split <;> first | exact h | trivial

theorem settled_of_calls {r : Request} {p : Prog Api α} (hp : p.Calls CountsNothing) :
    Obeys (expiryMonitor r) (fun _ s => s = .settled) p .settled := by
  refine obeys_of_calls hp fun c hc => ⟨?_, fun a => ?_⟩
  · change ExpiryStage.Allows r .settled c
    unfold ExpiryStage.Allows
    split <;> first | exact hc.elim | trivial
  · change ExpiryStage.next .settled ⟨c, a⟩ = .settled
    unfold ExpiryStage.next
    split
    · rename_i heq
      cases heq
      exact hc.elim
    · rfl

/-- Who creates the counter sets its expiry next. -/
theorem handleFailedLogin_pays (userId : Option String) :
    Obeys (expiryMonitor (.login email password context)) (fun _ s => s = .settled)
      (AuthService.handleFailedLogin email context userId) .settled := by
  have hreport : ∀ attempts : Nat,
      Obeys (expiryMonitor (.login email password context)) (fun _ s => s = .settled) (do
        audit (.loginFailed userId email context attempts ACCOUNT_LOCKOUT_MAX_ATTEMPTS)
        if ACCOUNT_LOCKOUT_MAX_ATTEMPTS ≤ attempts then
          audit (.accountLocked userId email context.ip (ACCOUNT_LOCKOUT_DURATION_SECONDS / 60)))
        .settled := by
    intro attempts
    refine settled_of_calls (calls_bind (calls_await trivial) fun _ => ?_)
    split
    · exact calls_await trivial
    · trivial
  refine obeys_await rfl (fun attempts _ => ?_) fun _ _ => rfl
  change Obeys _ _ _ (if attempts = (1 : Nat) then ExpiryStage.owing else .settled)
  by_cases hfirst : attempts = (1 : Nat)
  · simp only [if_pos hfirst]
    exact obeys_await rfl (fun _ _ => hreport _) fun _ _ => rfl
  · simp only [if_neg hfirst]
    exact hreport _

theorem login_pays (email password : String) (context : LoginContext) :
    Obeys (expiryMonitor (.login email password context)) (fun _ s => s = .settled)
      (Request.login email password context).prog .settled := by
  have hthen : ∀ {β γ : Type} {p : Prog Api β} {f : β → Prog Api γ},
      Obeys (expiryMonitor (.login email password context)) (fun _ s => s = .settled) p .settled →
      (∀ a, Obeys (expiryMonitor (.login email password context)) (fun _ s => s = .settled) (f a)
        .settled) →
      Obeys (expiryMonitor (.login email password context)) (fun _ s => s = .settled) (p >>= f)
        .settled := by
    intro β γ p f hp hf
    refine obeys_bind (obeys_mono hp fun o s hs => ?_)
    subst hs
    cases o with
    | ok a => exact hf a
    | error e => rfl
  have hquiet : ∀ c : Call, c.IsQuiet → CountsNothing c :=
    fun c hc => countsNothing_plain (plain_quiet c hc)
  refine hthen (hthen (settled_of_calls ?_) fun _ => hthen (settled_of_calls ?_) fun found => ?_)
    fun _ => rfl
  · refine calls_bind (calls_bind (calls_await trivial) fun _ => trivial) fun attempts => ?_
    split
    · refine calls_bind (calls_bind (calls_await trivial) fun _ => trivial) fun _ => ?_
      exact calls_bind (calls_await trivial) fun _ => trivial
    · trivial
  · exact calls_await trivial
  split
  · exact hthen (handleFailedLogin_pays none) fun _ => rfl
  rename_i user _
  refine hthen (settled_of_calls (calls_await trivial)) fun valid => ?_
  cases valid with
  | false => exact hthen (handleFailedLogin_pays (some user.id)) fun _ => rfl
  | true =>
    refine settled_of_calls ?_
    refine calls_bind (calls_bind (calls_await trivial) fun _ => trivial) fun _ => ?_
    refine calls_bind (generateTokens_calls hquiet trivial user) fun tokens => ?_
    refine calls_bind (calls_await trivial) fun _ => ?_
    exact calls_bind (calls_await trivial) fun _ => trivial

theorem prog_pays (r : Request) :
    Obeys (expiryMonitor r) (fun _ s => s = .settled) r.prog .settled := by
  cases hr : r.loginEmail with
  | some email =>
    cases r with
    | login email password context => exact login_pays email password context
    | _ => cases hr
  | none =>
    refine settled_of_calls (calls_mono (prog_calls r) fun c hc => countsNothing_plain ?_)
    rcases hc with hquiet | hfoot
    · exact plain_quiet c hquiet
    · exact footprint_plain hr hfoot

end Programs

/-! ## Runs -/

def expiryStage (requests : ℕ → Request) (cfg : Config Api ℕ World Response) : ℕ → ExpiryStage :=
  stage (fun i => expiryMonitor (requests i)) (fun _ => .settled) cfg

/-- A counter without an expiry is owed one by a login that has not been given up. -/
def EndIsOwed (requests : ℕ → Request) (email : String) (w : World) (st : ℕ → ExpiryStage)
    (abandoned : List ℕ) : Prop :=
  ¬ Temporary w email →
    ∃ i, (requests i).loginEmail = some email ∧ st i = .owing ∧ i ∉ abandoned

section Run

variable {requests : ℕ → Request} {email : String} {w w' : World} {i : ℕ} {ch : Choice} {c : Call}
  {r : Api.Answer c} {s : ExpiryStage}

theorem temporary_congr (hentry : w'.redis.entry (.loginAttempts email) =
    w.redis.entry (.loginAttempts email)) (hnow : w'.now = w.now) :
    Temporary w' email ↔ Temporary w email := by
  unfold Temporary loginCounter World.counterExpiry Expiring.get
  rw [hentry, hnow]

theorem temporary_of_expiry {n : ℕ} {t : Time}
    (h : w.redis.entry (.loginAttempts email) = some ⟨n, some t⟩) : Temporary w email := by
  right
  rw [World.counterExpiry, h]
  rfl

theorem temporary_tick {elapsed : Time} (h : Temporary w email) :
    Temporary { w with now := w.now + elapsed } email := by
  obtain hnone | hexpiry := h
  · left
    cases hafter : loginCounter { w with now := w.now + elapsed } email with
    | none => rfl
    | some n =>
      have hbefore : loginCounter w email = some n :=
        Expiring.get_some_mono (Nat.le_add_right _ _) hafter
      rw [hnone] at hbefore
      cases hbefore
  · exact .inr hexpiry

theorem temporary_expire {n : ℕ} :
    Temporary { w with
      redis := ((RedisCall.expire (.loginAttempts email) n).perform w.now w.redis).2 } email := by
  simp only [RedisCall.perform]
  split
  · rename_i hnone
    exact .inl hnone
  · rename_i v hv
    exact temporary_of_expiry (Expiring.entry_set_self _ _ _ _)

/-- `INCR` answers 1 where it creates the counter, and else keeps the expiry. -/
theorem temporary_incr :
    (((RedisCall.incr email).perform w.now w.redis).1 = (1 : Nat)) ∨
      (Temporary { w with redis := ((RedisCall.incr email).perform w.now w.redis).2 } email ↔
        Temporary w email) := by
  simp only [RedisCall.perform]
  split
  · exact .inl rfl
  · rename_i n hn
    right
    have hbefore : loginCounter w email = some n := hn
    have hafter : Expiring.get (w.redis.set (.loginAttempts email) (n + 1 : Nat)
        (w.counterExpiry email)) w.now (.loginAttempts email) = some (n + 1 : Nat) :=
      Expiring.get_set_keep hn _
    have hkept : Option.bind (Expiring.entry (w.redis.set (.loginAttempts email) (n + 1 : Nat)
        (w.counterExpiry email)) (.loginAttempts email)) (·.expiresAt) = w.counterExpiry email := by
      rw [Expiring.entry_set_self, Option.bind_some]
    unfold Temporary
    rw [hbefore]
    refine or_congr (iff_of_false ?_ (by simp)) (by rw [← hkept]; rfl)
    intro hnone
    cases hafter.symm.trans hnone

section Call

variable {st : ℕ → ExpiryStage} {abandoned : List ℕ}

/-- A call that leaves a temporary counter temporary, of a request that owes nothing. -/
theorem endIsOwed_of_settled {s : ExpiryStage} (hinv : EndIsOwed requests email w st abandoned)
    (hsettled : st i = .settled) (hkeep : Temporary w email → Temporary w' email) :
    EndIsOwed requests email w' (Function.update st i s) abandoned := by
  intro hend
  obtain ⟨j, hj, howing, hattended⟩ := hinv fun h => hend (hkeep h)
  exact ⟨j, hj, update_eq_of howing (by rw [hsettled]; decide), hattended⟩

theorem allows_owing {r : Request} (h : ExpiryStage.Allows r .owing c) :
    ∃ email n, c = .redis (.expire (.loginAttempts email) n) ∧ r.loginEmail = some email := by
  unfold ExpiryStage.Allows at h
  split at h
  · contradiction
  · contradiction
  · contradiction
  · exact ⟨_, _, rfl, h⟩
  · exact h.elim

/-- The expiry is set, or the call has nothing to do with the counter of the email. -/
theorem endIsOwed_owing {cfg : Config Api ℕ World Response} {k : Api.Answer c → Prog Api Response}
    (hinv : EndIsOwed requests email cfg.world st abandoned) (howing : st i = .owing)
    (hp : cfg.pool i = .call c k) (hset : SetsExpiry email ⟨cfg, abandoned⟩ (.step (.run i ch)))
    (hallow : ExpiryStage.Allows (requests i) .owing c)
    (hx : gateway.exec i c ch cfg.world = some (r, w)) :
    EndIsOwed requests email w (Function.update st i s) abandoned := by
  obtain ⟨email', n, rfl, hemail⟩ := allows_owing hallow
  by_cases hown : email' = email
  · subst hown
    have hok : ch.fails = false := (hset i n k hp).2 ch rfl
    rw [exec_of_ok _ hok] at hx
    cases hx
    exact fun hend => absurd temporary_expire hend
  · have hleaves : LeavesCounter email (.redis (.expire (.loginAttempts email') n)) := by
      intro hkey
      cases hkey
      exact hown rfl
    have hsame := sameCounter_exec hleaves hx
    intro hend
    obtain ⟨j, hj, hjowing, hattended⟩ := hinv fun h =>
      hend ((temporary_congr hsame.entry hsame.now).mpr h)
    have hne : j ≠ i := by
      rintro rfl
      rw [hemail] at hj
      exact hown (Option.some.inj hj)
    exact ⟨j, hj, by rwa [Function.update_of_ne hne], hattended⟩

/-- A request that owes nothing counts an attempt, clears the counter or leaves it alone. -/
theorem endIsOwed_settled (hinv : EndIsOwed requests email w st abandoned)
    (hsettled : st i = .settled) (hattended : i ∉ abandoned)
    (hallow : ExpiryStage.Allows (requests i) .settled c)
    (hx : gateway.exec i c ch w = some (r, w')) :
    EndIsOwed requests email w' (Function.update st i (ExpiryStage.next .settled ⟨c, r⟩))
      abandoned := by
  by_cases hleaves : LeavesCounter email c
  · have hsame := sameCounter_exec hleaves hx
    exact endIsOwed_of_settled hinv hsettled (temporary_congr hsame.entry hsame.now).mpr
  unfold LeavesCounter at hleaves
  split at hleaves
  · obtain rfl := not_not.mp hleaves
    exact hallow.elim
  · obtain rfl := not_not.mp hleaves
    obtain ⟨-, rfl⟩ | ⟨-, rfl⟩ := redis_cases hx
    · exact endIsOwed_of_settled hinv hsettled id
    · exact endIsOwed_of_settled hinv hsettled fun _ => .inl (Expiring.get_del_self _ _ _)
  · rename_i key n
    obtain rfl := not_not.mp hleaves
    obtain ⟨-, rfl⟩ | ⟨-, rfl⟩ := redis_cases hx
    · exact endIsOwed_of_settled hinv hsettled id
    · exact endIsOwed_of_settled hinv hsettled fun _ => temporary_expire
  · rename_i email'
    obtain rfl := not_not.mp hleaves
    obtain ⟨-, rfl⟩ | ⟨hr, rfl⟩ := redis_cases hx
    · exact endIsOwed_of_settled hinv hsettled id
    obtain hfirst | hkeep := @temporary_incr email' w
    · -- the counter has just been created, and this login owes its end
      intro _
      refine ⟨i, hallow, ?_, hattended⟩
      rw [Function.update_self, hr, hfirst]
      rfl
    · exact endIsOwed_of_settled hinv hsettled hkeep.mpr
  · exact absurd trivial hleaves

end Call

theorem endIsOwed_abandon {st : ℕ → ExpiryStage} {abandoned : List ℕ}
    (hinv : EndIsOwed requests email w st abandoned)
    (hsettled : (requests i).loginEmail = some email → st i = .settled) :
    EndIsOwed requests email w st (i :: abandoned) := by
  intro hend
  obtain ⟨j, hj, howing, hattended⟩ := hinv hend
  refine ⟨j, hj, howing, fun hmem => ?_⟩
  rcases List.mem_cons.mp hmem with rfl | hmem
  · rw [hsettled hj] at howing
    cases howing
  · exact hattended hmem

/-- A login that owes the expiry is about to set it. -/
theorem owing_pool {cfg : Config Api ℕ World Response}
    (hobey : AllObey (fun i => expiryMonitor (requests i)) (fun _ => .settled)
      (fun _ _ s => s = .settled) cfg) (hown : (requests i).loginEmail = some email)
    (howing : expiryStage requests cfg i = .owing) :
    ∃ n k, cfg.pool i = .call (.redis (.expire (.loginAttempts email) n)) k := by
  cases hp : cfg.pool i with
  | ret a =>
    have hpost := hobey.outcome (o := .ok a) (by rw [Config.outcome?, hp]; rfl)
    cases howing.symm.trans hpost
  | throw e =>
    have hpost := hobey.outcome (o := .error e) (by rw [Config.outcome?, hp]; rfl)
    cases howing.symm.trans hpost
  | call c k =>
    have hallow : ExpiryStage.Allows (requests i) (expiryStage requests cfg i) c := hobey.call hp
    rw [howing] at hallow
    obtain ⟨email', n, rfl, hemail⟩ := allows_owing hallow
    cases hown.symm.trans hemail
    exact ⟨n, k, rfl⟩

theorem endIsOwed_run {hs : List (Incident ℕ Choice Move)} {s : Attended Api ℕ World Response}
    (hstart : Temporary w email)
    (hset : Runs.Along gateway.happen (SetsExpiry email) hs ⟨.start w (Request.pool requests), []⟩)
    (hrun : Runs.run gateway.happen hs ⟨.start w (Request.pool requests), []⟩ = some s) :
    AllObey (fun i => expiryMonitor (requests i)) (fun _ => .settled) (fun _ _ s => s = .settled)
      s.cfg ∧
      EndIsOwed requests email s.cfg.world (expiryStage requests s.cfg) s.abandoned := by
  refine attended_invariant_along (EndIsOwed requests email) ?_ ?_ ?_
    (fun i => prog_pays (requests i)) (fun hend => absurd hstart hend) hset hrun
  · intro s i ch c k r w hobey hinv hset hattended hp hallow hx
    refine ⟨trivial, ?_⟩
    cases hstage : stage (fun i => expiryMonitor (requests i)) (fun _ => .settled) s.cfg i with
    | settled =>
      rw [hstage] at hallow
      exact endIsOwed_settled hinv hstage hattended hallow hx
    | owing =>
      rw [hstage] at hallow
      exact endIsOwed_owing hinv hstage hp hset hallow hx
  · intro mv w w' st gone hinv hm
    obtain ⟨elapsed, -, rfl⟩ | ⟨channel, broker, rfl⟩ := move_cases hm
    · exact fun hend => hinv fun h => hend (temporary_tick h)
    · exact hinv
  · intro s i hobey hinv hset
    refine endIsOwed_abandon hinv fun hown => ?_
    cases hstage : stage (fun i => expiryMonitor (requests i)) (fun _ => .settled) s.cfg i with
    | settled => rfl
    | owing =>
      obtain ⟨n, k, hp⟩ := owing_pool hobey hown hstage
      exact absurd rfl (hset i n k hp).1

/-- In a run in which no `EXPIRE` of the counter fails and no login is given up right before it:
whenever no login for the email is under way, the counter is absent or will expire. -/
theorem lock_temporary {hs : List (Incident ℕ Choice Move)} {s : Attended Api ℕ World Response}
    (hstart : Temporary w email)
    (hset : Runs.Along gateway.happen (SetsExpiry email) hs ⟨.start w (Request.pool requests), []⟩)
    (hrun : Runs.run gateway.happen hs ⟨.start w (Request.pool requests), []⟩ = some s)
    (hidle : NoLoginInFlight requests email s) : Temporary s.cfg.world email := by
  obtain ⟨hobey, hinv⟩ := endIsOwed_run hstart hset hrun
  by_contra hend
  obtain ⟨i, hown, howing, hattended⟩ := hinv hend
  obtain ⟨n, k, hp⟩ := owing_pool hobey hown howing
  obtain htrace | hout := hidle i hown hattended
  · rw [expiryStage, stage, htrace] at howing
    cases howing
  · rw [Config.outcome?, hp] at hout
    cases hout

end Run

/-! ## The runs in which the lock never ends -/

/-- Five logins with a wrong password, one after the other. After the first has created the
counter, `first` happens. -/
def fiveFailures (first : Incident ℕ Choice Move) : List (Incident ℕ Choice Move) :=
  List.replicate 4 (.step (.run 0 {})) ++ [first] ++
    (List.range' 1 4).flatMap fun i => List.replicate (if i = 4 then 6 else 5) (.step (.run i {}))

theorem noLoginInFlight_of_log {requests : ℕ → Request} {email : String}
    {s : Attended Api ℕ World Response}
    (h : ∀ i ∈ s.cfg.log.map Prod.fst, i ∈ s.abandoned ∨ (s.cfg.outcome? i).isSome = true) :
    NoLoginInFlight requests email s := by
  intro i _ hattended
  rcases s.cfg.trace_eq_nil_or i with hnil | hmem
  · exact .inl hnil
  · exact .inr ((h i hmem).resolve_left hattended)

theorem loginCounter_endless {w : World} {email : String} {n : ℕ}
    (h : (w.redis.entry (.loginAttempts email)).map (fun e => (e.value, e.expiresAt)) =
      some (n, none)) (t : Time) : loginCounter { w with now := t } email = some n := by
  obtain ⟨⟨value, expiresAt⟩, hentry, hpair⟩ := Option.map_eq_some_iff.mp h
  cases hpair
  unfold loginCounter Expiring.get
  rw [hentry]
  rfl

/-- Nobody is logging in any more, and the account is locked at any later time. -/
def LockedForGood (first : Incident ℕ Choice Move) : Prop :=
  ∃ s, Runs.run gateway.happen (fiveFailures first) ⟨.start seeded (Request.pool guesses), []⟩ =
      some s ∧
    NoLoginInFlight guesses "ray@talentflow.dev" s ∧
    ¬ Temporary s.cfg.world "ray@talentflow.dev" ∧
    ∀ t, loginCounter { s.cfg.world with now := t } "ray@talentflow.dev" =
      some ACCOUNT_LOCKOUT_MAX_ATTEMPTS

theorem lockedForGood_of_run {first : Incident ℕ Choice Move}
    (h : (Runs.run gateway.happen (fiveFailures first)
      ⟨.start seeded (Request.pool guesses), []⟩).map (fun s =>
        (decide (∀ i ∈ s.cfg.log.map Prod.fst, i ∈ s.abandoned ∨ (s.cfg.outcome? i).isSome = true),
          decide (Temporary s.cfg.world "ray@talentflow.dev"),
          (s.cfg.world.redis.entry (.loginAttempts "ray@talentflow.dev")).map fun e =>
            (e.value, e.expiresAt))) =
      some (true, false, some (ACCOUNT_LOCKOUT_MAX_ATTEMPTS, none))) : LockedForGood first := by
  obtain ⟨s, hrun, heq⟩ := Option.map_eq_some_iff.mp h
  obtain ⟨hidle, hrest⟩ := Prod.mk.inj heq
  obtain ⟨htemporary, hentry⟩ := Prod.mk.inj hrest
  exact ⟨s, hrun, noLoginInFlight_of_log (of_decide_eq_true hidle),
    of_decide_eq_false htemporary, loginCounter_endless hentry⟩

/-- The first login is given up between `INCR` and `EXPIRE`, or its `EXPIRE` fails. -/
theorem lock_endless :
    LockedForGood (.abandon 0) ∧ LockedForGood (.step (.run 0 { fails := true })) := by
  constructor
  · exact lockedForGood_of_run (by decide +kernel)
  · exact lockedForGood_of_run (by decide +kernel)

def Call.setsExpiry? : Call → Option String
  | .redis (.expire (.loginAttempts email) _) => some email
  | _ => none

theorem setsExpiry_of {p : Prog Api Response} {email : String}
    (h : p.next?.bind Call.setsExpiry? = some email) :
    ∃ n k, p = .call (.redis (.expire (.loginAttempts email) n)) k := by
  obtain ⟨c, hc, hsets⟩ := Option.bind_eq_some_iff.mp h
  unfold Call.setsExpiry? at hsets
  split at hsets
  · cases hsets
    exact ⟨_, Prog.eq_call_of_next? hc⟩
  · cases hsets

instance (email : String) (s : Attended Api ℕ World Response) :
    ∀ h, Decidable (SetsExpiry email s h)
  | .abandon i =>
    decidable_of_iff ((s.cfg.pool i).next?.bind Call.setsExpiry? ≠ some email) <| by
    constructor
    · intro h j n k hp
      refine ⟨?_, nofun⟩
      rintro ⟨⟩
      exact h (by rw [hp]; rfl)
    · intro h hsets
      obtain ⟨n, k, hp⟩ := setsExpiry_of hsets
      exact (h i n k hp).1 rfl
  | .step (.run i ch) =>
    decidable_of_iff ((s.cfg.pool i).next?.bind Call.setsExpiry? = some email →
      ch.fails = false) <| by
    constructor
    · intro h j n k hp
      refine ⟨nofun, ?_⟩
      rintro ch' ⟨⟩
      exact h (by rw [hp]; rfl)
    · intro h hsets
      obtain ⟨n, k, hp⟩ := setsExpiry_of hsets
      exact (h i n k hp).2 ch rfl
  | .step (.move _) => .isTrue fun _ _ _ _ => ⟨nofun, nofun⟩

/-- The guesses up to the lock. Login 1 cannot read the counter, login 2 is given up after it has
been counted, and login 6 is turned away. -/
def guessesToTheLock : List (Incident ℕ Choice Move) :=
  List.replicate 6 (.step (.run 0 {})) ++ [.step (.run 1 { fails := true })] ++
    List.replicate 4 (.step (.run 2 {})) ++ [.abandon 2] ++
    (List.range' 3 3).flatMap (fun i => List.replicate (if i = 5 then 6 else 5) (.step (.run i {}))) ++
    List.replicate 3 (.step (.run 6 {}))

theorem lock_temporary_guess :
    ∃ s, Runs.run gateway.happen guessesToTheLock ⟨.start seeded (Request.pool guesses), []⟩ =
        some s ∧
      loginCounter s.cfg.world "ray@talentflow.dev" = some ACCOUNT_LOCKOUT_MAX_ATTEMPTS ∧
      Temporary s.cfg.world "ray@talentflow.dev" := by
  have h : (Runs.run gateway.happen guessesToTheLock
      ⟨.start seeded (Request.pool guesses), []⟩).map (fun s =>
        (decide (∀ i ∈ s.cfg.log.map Prod.fst, i ∈ s.abandoned ∨ (s.cfg.outcome? i).isSome = true),
          loginCounter s.cfg.world "ray@talentflow.dev")) =
      some (true, some ACCOUNT_LOCKOUT_MAX_ATTEMPTS) := by decide +kernel
  obtain ⟨s, hrun, heq⟩ := Option.map_eq_some_iff.mp h
  obtain ⟨hidle, hcounter⟩ := Prod.mk.inj heq
  have hset : Runs.Along gateway.happen (SetsExpiry "ray@talentflow.dev") guessesToTheLock
      ⟨.start seeded (Request.pool guesses), []⟩ := by decide +kernel
  exact ⟨s, hrun, hcounter, lock_temporary (.inl rfl) hset hrun
    (noLoginInFlight_of_log (of_decide_eq_true hidle))⟩

end TalentFlow
