import TalentFlow.Gateway.QueueSegments
import Mathlib.Tactic.Linarith

/-!
# Guarantees.Backoff

The delays of the queue client's reconnects. `scheduleReconnect` doubles the delay with every attempt
since the last success, adds a random part of a fifth of it at most, and never exceeds the maximum.

* `delayMs_le_next`: the random part of one attempt stays below the doubling of the next.
* `backoff_step`: one step sets a timer by `scheduleReconnect`, or none.
* `backoff_monotone`: between two successes the delays of any run do not decrease, and all are
  between the bounds.
-/

namespace TalentFlow.Queue

open Async Queue.QueueService

/-! ## One delay -/

def QueueConfig.baseDelayMs (config : QueueConfig) (reconnectAttempt : ℕ) : ℕ :=
  min config.RABBITMQ_RECONNECT_MAX_DELAY_MS
    (config.RABBITMQ_RECONNECT_INITIAL_DELAY_MS * 2 ^ reconnectAttempt)

section Delay

variable {config : QueueConfig} {k k' : ℕ} {r : ℚ}

theorem baseDelayMs_mono (config : QueueConfig) (h : k ≤ k') :
    config.baseDelayMs k ≤ config.baseDelayMs k' := by
  unfold QueueConfig.baseDelayMs
  have hpow : 2 ^ k ≤ 2 ^ k' := Nat.pow_le_pow_right (by decide) h
  have hmul := Nat.mul_le_mul_left config.RABBITMQ_RECONNECT_INITIAL_DELAY_MS hpow
  omega

theorem baseDelayMs_le_delayMs (config : QueueConfig) (k : ℕ) (r : ℚ) :
    config.baseDelayMs k ≤ config.delayMs k r := by
  have hmax : config.baseDelayMs k ≤ config.RABBITMQ_RECONNECT_MAX_DELAY_MS := Nat.min_le_left _ _
  exact Nat.le_min.mpr ⟨hmax, Nat.le_add_right _ _⟩

theorem delayMs_le_max : config.delayMs k r ≤ config.RABBITMQ_RECONNECT_MAX_DELAY_MS := by
  unfold QueueConfig.delayMs
  exact Nat.min_le_left _ _

/-- The random part is not more than the base. -/
theorem jitter_le {base : ℕ} (hbase : 1 ≤ base) (hr : r < 1) :
    ⌊r * max 1 (base * (2 / 10 : ℚ))⌋.toNat ≤ base := by
  have hb : (1 : ℚ) ≤ base := by exact_mod_cast hbase
  have hmax : max 1 (base * (2 / 10 : ℚ)) ≤ base := max_le hb (by linarith)
  have hpos : 0 ≤ max 1 (base * (2 / 10 : ℚ)) := le_trans zero_le_one (le_max_left _ _)
  have hprod : r * max 1 (base * (2 / 10 : ℚ)) ≤ base := by
    have hle := mul_le_mul_of_nonneg_right hr.le hpos
    linarith
  have hfloor : ⌊r * max 1 (base * (2 / 10 : ℚ))⌋ ≤ (base : ℤ) := by
    have hmono := Int.floor_le_floor hprod
    rwa [Int.floor_natCast] at hmono
  omega

/-- The random part of one attempt stays below the doubling of the next. -/
theorem delayMs_le_next (hinitial : 1 ≤ config.RABBITMQ_RECONNECT_INITIAL_DELAY_MS)
    (hmax : 1 ≤ config.RABBITMQ_RECONNECT_MAX_DELAY_MS) (hr : r < 1) :
    config.delayMs k r ≤ config.baseDelayMs (k + 1) := by
  have hpow : 1 ≤ 2 ^ k := Nat.one_le_two_pow
  have hgrown : 1 ≤ config.RABBITMQ_RECONNECT_INITIAL_DELAY_MS * 2 ^ k := Nat.mul_pos hinitial hpow
  have hbase : 1 ≤ config.baseDelayMs k := le_min hmax hgrown
  have hjitter := jitter_le hbase hr
  have hdouble : config.RABBITMQ_RECONNECT_INITIAL_DELAY_MS * 2 ^ (k + 1) =
      2 * (config.RABBITMQ_RECONNECT_INITIAL_DELAY_MS * 2 ^ k) := by
    rw [Nat.pow_succ]
    ring
  unfold QueueConfig.baseDelayMs at hjitter ⊢
  simp only [QueueConfig.delayMs]
  omega

end Delay

/-! ## What a step does to the timers -/

/-- No timer is set, and `reconnectAttempt` is left as it is or set back. -/
structure World.SetsNone (w w' : World) : Prop where
  config : w'.config = w.config
  random : w'.random = w.random
  timers : ∀ t ∈ w'.timers, t ∈ w.timers
  timersSet : w'.timersSet = w.timersSet
  attempt : w'.this.reconnectAttempt = w.this.reconnectAttempt ∨ w'.this.reconnectAttempt = 0

/-- One timer is set, with the delay of the attempt that the service is at. -/
structure World.SetsOne (w w' : World) : Prop where
  config : w'.config = w.config
  random : w'.random = w.random
  timers : w'.timers = w.timers ++
    [⟨w.timersSet, w.config.delayMs w.this.reconnectAttempt (w.random w.draws)⟩]
  timersSet : w'.timersSet = w.timersSet + 1
  attempt : w'.this.reconnectAttempt = w.this.reconnectAttempt + 1

section Steps

variable {w w' : World} {st st' : Stage} {t : Trigger} {ok : Bool} {a : Answered Api}

theorem schedule_sets (w : World) : w.SetsNone w.schedule ∨ w.SetsOne w.schedule := by
  unfold World.schedule
  split
  · exact .inl ⟨rfl, rfl, fun _ ht => ht, rfl, .inl rfl⟩
  · exact .inr ⟨rfl, rfl, rfl, rfl, rfl⟩

theorem sets_begin (h : Stage.begin t w = some (st, w')) : w.SetsNone w' := by
  cases begin_cases h with
  | timer t ht => exact ⟨rfl, rfl, fun _ hmem => List.mem_of_mem_erase hmem, rfl, .inl rfl⟩
  | destroy hi hd =>
    refine ⟨rfl, rfl, fun t' hmem => ?_, rfl, .inl rfl⟩
    have hmem' : t' ∈ w.this.reconnectTimer.elim w.timers w.timers.erase := hmem
    cases htimer : w.this.reconnectTimer with
    | none =>
      rw [htimer] at hmem'
      exact hmem'
    | some t₀ =>
      rw [htimer] at hmem'
      exact List.mem_of_mem_erase hmem'
  | init _ => exact ⟨rfl, rfl, fun _ hmem => hmem, rfl, .inl rfl⟩
  | lost c _ _ => exact ⟨rfl, rfl, fun _ hmem => hmem, rfl, .inl rfl⟩
  | lostLate c _ _ => exact ⟨rfl, rfl, fun _ hmem => hmem, rfl, .inl rfl⟩
  | publishNothing event full _ => exact ⟨rfl, rfl, fun _ hmem => hmem, rfl, .inl rfl⟩
  | publish event full channel _ outcome => exact ⟨rfl, rfl, fun _ hmem => hmem, rfl, .inl rfl⟩
  | health => exact ⟨rfl, rfl, fun _ hmem => hmem, rfl, .inl rfl⟩

theorem sets_next (h : st.next ok w = some (a, st', w')) : w.SetsNone w' ∨ w.SetsOne w' := by
  cases st with
  | configured own =>
    cases h
    exact .inl ⟨rfl, rfl, fun _ hmem => hmem, rfl, .inr rfl⟩
  | closed closer =>
    cases closer <;> cases h
    · exact .inl ⟨rfl, rfl, fun _ hmem => hmem, rfl, .inl rfl⟩
    · exact schedule_sets w
  | cleaned =>
    cases h
    exact schedule_sets w
  | destroyingChannel channel =>
    simp only [Stage.next] at h
    split at h <;> (cases h; exact .inl ⟨rfl, rfl, fun _ hmem => hmem, rfl, .inl rfl⟩)
  | destroyingConnection connection =>
    simp only [Stage.next] at h
    split at h <;> (cases h; exact .inl ⟨rfl, rfl, fun _ hmem => hmem, rfl, .inl rfl⟩)
  | ended outcome => cases h
  | _ => cases ok <;> (cases h; exact .inl ⟨rfl, rfl, fun _ hmem => hmem, rfl, .inl rfl⟩)

theorem backoff_step {l : Label} {σ σ' : StagedState} (h : queueStages.step l σ = some σ') :
    σ.world.SetsNone σ'.world ∨ σ.world.SetsOne σ'.world := by
  obtain ⟨i, t, st, w, -, -, hb, rfl⟩ | ⟨i, ok, t, st, a, st', w, -, -, hn, rfl⟩ :=
    Staging.staged_cases h
  · exact .inl (sets_begin hb)
  · exact sets_next hn

end Steps

/-! ## Runs -/

/-- The step ends a `connectWithSetup` that has succeeded, and sets `reconnectAttempt` back. (A
success of the first attempt finds nothing to set back.) -/
def succeeds (s : State) (l : Label) : Bool :=
  (queueLoop.step l s).any fun s' =>
    decide (s'.world.this.reconnectAttempt < s.world.this.reconnectAttempt)

/-- The timers that the step from `w` to `w'` has set. -/
def World.newTimers (w w' : World) : List Timer :=
  w'.timers.filter fun t => decide (w.timersSet ≤ t.id)

def delaysSet : List Label → State → List ℕ
  | [], _ => []
  | l :: ls, s =>
    match queueLoop.step l s with
    | some s' => (s.world.newTimers s'.world).map Timer.delayMs ++ delaysSet ls s'
    | none => []

structure BackoffInv (config : QueueConfig) (random : ℕ → ℚ) (w : World) : Prop where
  config : w.config = config
  random : w.random = random
  numbered : ∀ t ∈ w.timers, t.id < w.timersSet

section Runs

variable {config : QueueConfig} {random : ℕ → ℚ} {w w' : World}

theorem BackoffInv.sets (hw : BackoffInv config random w) (h : w.SetsNone w' ∨ w.SetsOne w') :
    BackoffInv config random w' := by
  obtain hnone | hone := h
  · refine ⟨hnone.config.trans hw.config, hnone.random.trans hw.random, fun t ht => ?_⟩
    rw [hnone.timersSet]
    exact hw.numbered t (hnone.timers t ht)
  · refine ⟨hone.config.trans hw.config, hone.random.trans hw.random, fun t ht => ?_⟩
    rw [hone.timers] at ht
    rw [hone.timersSet]
    rcases List.mem_append.mp ht with hold | hnew
    · exact Nat.lt_succ_of_lt (hw.numbered t hold)
    · rw [List.mem_singleton.mp hnew]
      exact Nat.lt_succ_self _

theorem backoffInv_run {ls : List Label} {σ : StagedState}
    (h : queueStages.run ls (StagedState.initial config random) = some σ) :
    BackoffInv config random σ.world := by
  refine Runs.run_induction (fun σ : StagedState => BackoffInv config random σ.world)
    (fun hσ hs => hσ.sets (backoff_step hs)) ⟨rfl, rfl, fun t ht => ?_⟩ h
  cases ht

theorem old_timers (hw : BackoffInv config random w) :
    w.timers.filter (fun t => decide (w.timersSet ≤ t.id)) = [] := by
  rw [List.filter_eq_nil_iff]
  intro t ht hle
  have hlt := hw.numbered t ht
  have hge := of_decide_eq_true hle
  omega

theorem newTimers_none (hw : BackoffInv config random w) (h : w.SetsNone w') :
    w.newTimers w' = [] := by
  rw [World.newTimers, List.filter_eq_nil_iff]
  intro t ht hle
  have hlt := hw.numbered t (h.timers t ht)
  have hge := of_decide_eq_true hle
  omega

theorem newTimers_one (hw : BackoffInv config random w) (h : w.SetsOne w') :
    w.newTimers w' =
      [⟨w.timersSet, config.delayMs w.this.reconnectAttempt (random w.draws)⟩] := by
  rw [World.newTimers, h.timers, List.filter_append, old_timers hw, List.nil_append, hw.config,
    hw.random]
  simp

theorem delays_from {ls : List Label} {σ : StagedState} {s' : State}
    (hinitial : 1 ≤ config.RABBITMQ_RECONNECT_INITIAL_DELAY_MS)
    (hmax : 1 ≤ config.RABBITMQ_RECONNECT_MAX_DELAY_MS) (hrandom : ∀ n, random n < 1)
    (hσ : BackoffInv config random σ.world)
    (hrun : queueLoop.run ls (queueStages.state σ) = some s')
    (hfail : queueLoop.Along (fun s l => succeeds s l = false) ls (queueStages.state σ)) :
    (delaysSet ls (queueStages.state σ)).Pairwise (· ≤ ·) ∧
      ∀ d ∈ delaysSet ls (queueStages.state σ),
        config.baseDelayMs σ.world.this.reconnectAttempt ≤ d ∧
          d ≤ config.RABBITMQ_RECONNECT_MAX_DELAY_MS := by
  induction ls generalizing σ with
  | nil => exact ⟨.nil, fun d hd => by cases hd⟩
  | cons l ls ih =>
    obtain ⟨s₁, hs, hrest⟩ := Runs.run_cons.mp hrun
    have hstep := hs
    rw [Staging.step_staged, Option.map_eq_some_iff] at hstep
    obtain ⟨σ₁, hσ₁, rfl⟩ := hstep
    have hsets := backoff_step hσ₁
    obtain ⟨hpair, hbounds⟩ := ih (hσ.sets hsets) hrest (hfail.2 _ hs)
    have hdelays : delaysSet (l :: ls) (queueStages.state σ) =
        (σ.world.newTimers σ₁.world).map Timer.delayMs ++
          delaysSet ls (queueStages.state σ₁) := by
      rw [delaysSet, hs]
      rfl
    rw [hdelays]
    obtain hnone | hone := hsets
    · rw [newTimers_none hσ hnone, List.map_nil, List.nil_append]
      -- without a success the attempts go on counting
      have hcount : σ.world.this.reconnectAttempt ≤ σ₁.world.this.reconnectAttempt := by
        have hnot : succeeds (queueStages.state σ) l = false := hfail.1
        simp only [succeeds, hs, Option.any_some, decide_eq_false_iff_not] at hnot
        exact Nat.le_of_not_lt hnot
      have hbase := baseDelayMs_mono config hcount
      exact ⟨hpair, fun d hd => ⟨hbase.trans (hbounds d hd).1, (hbounds d hd).2⟩⟩
    · rw [newTimers_one hσ hone, List.map_singleton, List.singleton_append]
      have hnext := delayMs_le_next (k := σ.world.this.reconnectAttempt) hinitial hmax
        (hrandom σ.world.draws)
      rw [hone.attempt] at hbounds
      have hstart := baseDelayMs_le_delayMs config σ.world.this.reconnectAttempt
        (random σ.world.draws)
      constructor
      · exact List.pairwise_cons.mpr ⟨fun d hd => hnext.trans (hbounds d hd).1, hpair⟩
      · intro d hd
        rcases List.mem_cons.mp hd with rfl | hd
        · exact ⟨hstart, delayMs_le_max⟩
        · exact ⟨(hstart.trans hnext).trans (hbounds d hd).1, (hbounds d hd).2⟩

/-- In a part of a run without a success, the delays do not decrease, and all are between the
smaller of the initial and the maximum delay and the maximum. -/
theorem backoff_monotone {ls ls' : List Label} {s s' : State}
    (hinitial : 100 ≤ config.RABBITMQ_RECONNECT_INITIAL_DELAY_MS)
    (hmax : 1000 ≤ config.RABBITMQ_RECONNECT_MAX_DELAY_MS)
    (hrandom : ∀ n, 0 ≤ random n ∧ random n < 1)
    (hrun : queueLoop.run ls (State.initial config random) = some s)
    (hrun' : queueLoop.run ls' s = some s')
    (hfail : queueLoop.Along (fun s l => succeeds s l = false) ls' s) :
    (delaysSet ls' s).Pairwise (· ≤ ·) ∧
      ∀ d ∈ delaysSet ls' s,
        min config.RABBITMQ_RECONNECT_INITIAL_DELAY_MS config.RABBITMQ_RECONNECT_MAX_DELAY_MS ≤ d ∧
          d ≤ config.RABBITMQ_RECONNECT_MAX_DELAY_MS := by
  obtain ⟨σ, hσrun, rfl⟩ := run_stages hrun
  obtain ⟨hpair, hbounds⟩ := delays_from (Nat.le_trans (by decide) hinitial)
    (Nat.le_trans (by decide) hmax) (fun n => (hrandom n).2) (backoffInv_run hσrun) hrun' hfail
  refine ⟨hpair, fun d hd => ⟨?_, (hbounds d hd).2⟩⟩
  have hzero := baseDelayMs_mono config (Nat.zero_le σ.world.this.reconnectAttempt)
  have hfirst : config.baseDelayMs 0 = min config.RABBITMQ_RECONNECT_MAX_DELAY_MS
      config.RABBITMQ_RECONNECT_INITIAL_DELAY_MS := by
    rw [QueueConfig.baseDelayMs, Nat.pow_zero, Nat.mul_one]
  have hd' := (hbounds d hd).1
  omega

end Runs

/-- An attempt as task `i` that fails at once. -/
def failingAttempt (i : ℕ) (t : Trigger) : List Label :=
  .start i t :: List.replicate 6 (.resume i false)

def twoFailures : List Label := failingAttempt 0 .init ++ failingAttempt 1 (.timer ⟨0, 1100⟩)

theorem backoff_monotone_twice :
    let s := State.initial localBroker fun _ => 1 / 2
    delaysSet twoFailures s = [1100, 2200] ∧ (delaysSet twoFailures s).Pairwise (· ≤ ·) ∧
      ∀ d ∈ delaysSet twoFailures s, min 1000 30000 ≤ d ∧ d ≤ 30000 := by
  refine ⟨by decide +kernel, ?_⟩
  have hruns : (queueLoop.run twoFailures
      (State.initial localBroker fun _ => 1 / 2)).isSome = true := by decide +kernel
  obtain ⟨s', hrun⟩ := Option.isSome_iff_exists.mp hruns
  exact @backoff_monotone localBroker _ [] _ _ _ (by decide) (by decide)
    (fun _ => ⟨by norm_num, by norm_num⟩) rfl hrun (by decide +kernel)

end TalentFlow.Queue
