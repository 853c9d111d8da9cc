import TalentFlow.Gateway.QueueSegments

/-!
# Guarantees.Reconnect

The queue client is never stuck: once `onModuleInit` has been called, and until `onModuleDestroy` is,
there is a connection with its channel, or a reconnect timer is pending, or somebody is at work who
ends with a connection or with `scheduleReconnect`.

* `World.TimerKnown`: the timer that `this` knows is the one that is pending.
* `Stage.Reconnects`: the stages that owe a connection or a timer. An attempt owes it until it has
  its channel; later a failure of its own, or whoever takes its connection down, owes it again.
* `never_stuck`: the invariant over every run.
-/

namespace TalentFlow.Queue

open Async Queue.QueueService

/-! ## What is promised -/

def Connecting (s : State) : Prop :=
  ∃ i task, s.tasks i = some task ∧ (task.origin = .init ∨ ∃ timer, task.origin = .timer timer) ∧
    s.InFlight i

/-- A `handleConnectionLost` is at its closing step, and will call `scheduleReconnect`. -/
def ClosingLost (s : State) : Prop :=
  ∃ i task connection, s.tasks i = some task ∧ task.origin = .lost connection ∧ s.InFlight i ∧
    task.prog.Leads (scheduleReconnect >>= fun _ => return .done)

def World.Connected (w : World) : Prop := w.this.connection ≠ none ∧ w.this.channel ≠ none

def NotStuck (s : State) : Prop :=
  s.world.Connected ∨ s.world.timers ≠ [] ∨ Connecting s ∨ ClosingLost s

/-! ## The timer -/

/-- The timer that `this` knows is the one that is pending. -/
def World.TimerKnown (w : World) : Prop := w.timers = w.this.reconnectTimer.toList

section Steps

variable {st st' : Stage} {ok : Bool} {w w' : World} {a : Answered Api} {t : Trigger}

theorem timerKnown_schedule (h : w.TimerKnown) : w.schedule.TimerKnown := by
  unfold World.schedule
  split
  · exact h
  · next hn =>
    have hnone : w.this.reconnectTimer = none := by
      cases ht : w.this.reconnectTimer <;> simp_all
    have htimers : w.timers = [] := by rw [h, hnone, Option.toList_none]
    simp [World.TimerKnown, htimers]

theorem timerKnown_next (h : st.next ok w = some (a, st', w')) (hw : w.TimerKnown) :
    w'.TimerKnown := by
  obtain hsame | rfl := timers_next h
  · unfold World.TimerKnown
    rw [hsame.timers, hsame.reconnectTimer]
    exact hw
  · exact timerKnown_schedule hw

theorem timerKnown_begin (h : Stage.begin t w = some (st, w')) (hw : w.TimerKnown) :
    w'.TimerKnown := by
  cases begin_cases h with
  | timer t ht =>
    have hknown : w.this.reconnectTimer = some t := by
      rw [hw] at ht
      simpa using ht
    have htimers : w.timers = [t] := by rw [hw, hknown, Option.toList_some]
    simp [World.TimerKnown, htimers]
  | destroy _ _ =>
    have htimers := hw
    unfold World.TimerKnown at htimers
    cases hknown : w.this.reconnectTimer with
    | none =>
      rw [hknown] at htimers
      simp [World.TimerKnown, World.shutDown, World.closeChannel, hknown, htimers]
    | some t =>
      rw [hknown] at htimers
      simp [World.TimerKnown, World.shutDown, World.closeChannel, hknown, htimers]
  | init _ => exact hw
  | lost c _ _ => exact hw
  | lostLate c _ _ => exact hw
  | publishNothing event full _ => exact hw
  | publish event full channel _ outcome => exact hw
  | health => exact hw

/-! ## Who owes a connection -/

/-- The task ends with a connection and its channel, or with `scheduleReconnect`. -/
def Stage.Reconnects (w : World) : Stage → Prop
  | connecting _ _ => True
  | opening _ => w.this.connection ≠ none
  | failing _ _ => True
  | closingChannel _ _ _ => True
  | closingConnection _ _ => True
  | closed _ => True
  | cleaned => True
  | _ => False

structure World.SameFields (w w' : World) : Prop where
  connection : w'.this.connection = w.this.connection
  channel : w'.this.channel = w.this.channel
  timers : w'.timers = w.timers
  initialised : w'.initialised = w.initialised
  isShuttingDown : w'.this.isShuttingDown = w.this.isShuttingDown

theorem Stage.Reconnects.same (h : st.Reconnects w) (hsame : w.SameFields w') :
    st.Reconnects w' := by
  cases st with
  | opening c =>
    have hc : w.this.connection ≠ none := h
    rw [← hsame.connection] at hc
    exact hc
  | _ => exact h

theorem schedule_timers (hw : w.TimerKnown) (hd : w.schedule.this.isShuttingDown = false) :
    w.schedule.timers ≠ [] := by
  unfold World.schedule at hd ⊢
  split
  · next hn =>
    rw [if_pos hn] at hd
    obtain ⟨t, ht⟩ : ∃ t, w.this.reconnectTimer = some t := by
      simpa [hd, Option.isSome_iff_exists] using hn
    rw [hw, ht]
    simp
  · simp

/-- What a segment leaves behind: a connection, a timer, or a task that owes one. If not, it has
left the fields as they were, and the task did not owe anything (`owed`) before. -/
def Provided (owed : Prop) (st' : Stage) (w w' : World) : Prop :=
  w'.Connected ∨ w'.timers ≠ [] ∨ st'.Reconnects w' ∨ w.SameFields w' ∧ ¬ owed

theorem provided_declareNext (own : Channel) (step : TopologyStep) {owed : Prop} (h : ¬ owed) :
    Provided owed (w.declareNext own step) w w := by
  unfold World.declareNext
  split
  · exact .inr (.inr (.inr ⟨⟨rfl, rfl, rfl, rfl, rfl⟩, h⟩))
  · exact .inr (.inr (.inl trivial))

theorem provided_next (h : st.next ok w = some (a, st', w')) (hw : w.TimerKnown)
    (hdown : w'.this.isShuttingDown = false)
    (hdestroy : st.kind = some .destroy → w.this.isShuttingDown = true) :
    Provided (st.Reconnects w) st' w w' := by
  cases st with
  | connecting url options =>
    cases ok <;> cases h
    · exact .inr (.inr (.inl trivial))
    · exact .inr (.inr (.inl (by simp [Stage.Reconnects, World.obtain])))
  | opening c =>
    cases ok <;> cases h
    · exact .inr (.inr (.inl trivial))
    · cases hc : w.this.connection with
      | none => exact .inr (.inr (.inl trivial))
      | some c' => exact .inl (by simp [World.Connected, World.openChannel, hc])
  | connected own =>
    cases h
    split
    · exact .inr (.inr (.inl trivial))
    · exact provided_declareNext own _ id
  | declaring own step on =>
    cases ok <;> cases h
    · exact .inr (.inr (.inl trivial))
    · split
      · exact provided_declareNext own _ id
      · exact .inr (.inr (.inr ⟨⟨rfl, rfl, rfl, rfl, rfl⟩, id⟩))
  | configured own =>
    cases h
    exact .inr (.inr (.inr ⟨⟨rfl, rfl, rfl, rfl, rfl⟩, id⟩))
  | failing part e =>
    cases h
    exact .inr (.inr (.inl trivial))
  | closingChannel closer channel connection =>
    cases h
    exact .inr (.inr (.inl trivial))
  | closingConnection closer connection =>
    cases h
    exact .inr (.inr (.inl trivial))
  | closed closer =>
    cases closer <;> cases h
    · exact .inr (.inr (.inl trivial))
    · exact .inr (.inl (schedule_timers hw hdown))
  | cleaned =>
    cases h
    exact .inr (.inl (schedule_timers hw hdown))
  | destroyingChannel channel =>
    have hd : w.this.isShuttingDown = true := hdestroy rfl
    simp only [Stage.next] at h
    split at h <;> cases h <;> exact absurd (hd.symm.trans hdown) (by simp)
  | destroyingConnection connection =>
    have hd : w.this.isShuttingDown = true := hdestroy rfl
    simp only [Stage.next] at h
    split at h <;> cases h <;> exact absurd (hd.symm.trans hdown) (by simp)
  | ended outcome => cases h

theorem provided_begin (h : Stage.begin t w = some (st, w'))
    (hdown : w'.this.isShuttingDown = false) : Provided False st w w' := by
  have hattempt : w.attempt.Reconnects w' := by
    obtain ⟨url, hw⟩ | ⟨e, hw⟩ := attempt_cases w <;> rw [hw] <;> trivial
  cases begin_cases h with
  | init _ => exact .inr (.inr (.inl hattempt))
  | timer t _ => exact .inr (.inr (.inl hattempt))
  | lost c _ _ => exact .inr (.inr (.inl trivial))
  | lostLate c _ _ => exact .inr (.inr (.inr ⟨⟨rfl, rfl, rfl, rfl, rfl⟩, id⟩))
  | publishNothing event full _ => exact .inr (.inr (.inr ⟨⟨rfl, rfl, rfl, rfl, rfl⟩, id⟩))
  | publish event full channel _ outcome =>
    exact .inr (.inr (.inr ⟨⟨rfl, rfl, rfl, rfl, rfl⟩, id⟩))
  | health => exact .inr (.inr (.inr ⟨⟨rfl, rfl, rfl, rfl, rfl⟩, id⟩))
  | destroy _ _ => cases hdown

end Steps

/-! ## The invariant -/

structure ReconnectInv (σ : StagedState) : Prop where
  timer : σ.world.TimerKnown
  kinds : EachStage σ.stages fun t st => st.OfKind t
  destroying : EachStage σ.stages fun _ st => st.Destroys σ.world
  provided : σ.world.initialised = true → σ.world.this.isShuttingDown = false →
    (σ.world.Connected ∨ σ.world.timers ≠ []) ∨
      HasStage σ.stages fun _ st => st.Reconnects σ.world

theorem provided_update {σ : StagedState} {i : ℕ} {t : Trigger} {st : Stage} {w : World}
    {owed : Prop} (hσ : σ.world.initialised = true → σ.world.this.isShuttingDown = false →
      (σ.world.Connected ∨ σ.world.timers ≠ []) ∨
        HasStage σ.stages fun _ st => st.Reconnects σ.world)
    (howed : ∀ t st, σ.stages i = some (t, st) → st.Reconnects σ.world → owed)
    (hp : w.this.isShuttingDown = false → Provided owed st σ.world w)
    (hinit : w.initialised = true) (hdown : w.this.isShuttingDown = false) :
    (w.Connected ∨ w.timers ≠ []) ∨
      HasStage (Function.update σ.stages i (some (t, st))) fun _ st => st.Reconnects w := by
  obtain hc | ht | hst | ⟨hsame, hnot⟩ := hp hdown
  · exact .inl (.inl hc)
  · exact .inl (.inr ht)
  · exact .inr (hasStage_update hst)
  · refine owed_update (hσ (hsame.initialised ▸ hinit) (hsame.isShuttingDown ▸ hdown))
      (.inr (.inr ⟨?_, fun _ _ h => h.same hsame, fun t st hi hr => hnot (howed t st hi hr)⟩))
    unfold World.Connected
    rw [hsame.connection, hsame.channel, hsame.timers]
    exact id

theorem reconnectInv_step {l : Label} {σ σ' : StagedState} (hσ : ReconnectInv σ)
    (h : queueStages.step l σ = some σ') : ReconnectInv σ' := by
  have hkinds := ofKind_step h hσ.kinds
  have hdestroying := destroys_step h hσ.destroying
  obtain ⟨i, t, st, w, -, hi, hb, rfl⟩ | ⟨i, ok, t, st, a, st', w, -, hi, hn, rfl⟩ :=
    Staging.staged_cases h
  · refine ⟨timerKnown_begin hb hσ.timer, hkinds, hdestroying, ?_⟩
    exact provided_update hσ.provided (fun t st h => by rw [hi] at h; cases h)
      (provided_begin hb)
  · refine ⟨timerKnown_next hn hσ.timer, hkinds, hdestroying, ?_⟩
    refine provided_update hσ.provided (fun t' st' h hr => ?_)
      fun hd => provided_next hn hσ.timer hd (hσ.destroying i t st hi)
    rw [hi] at h
    cases h
    exact hr

theorem reconnectInv_run {config : QueueConfig} {random : ℕ → ℚ} {ls : List Label}
    {σ : StagedState} (h : queueStages.run ls (StagedState.initial config random) = some σ) :
    ReconnectInv σ := by
  have hinit : ReconnectInv (StagedState.initial config random) := by
    refine ⟨rfl, ?_, ?_, ?_⟩
    · intro i t st hi; cases hi
    · intro i t st hi; cases hi
    · intro hinit; cases hinit
  exact Runs.run_induction ReconnectInv reconnectInv_step hinit h

/-! ## Never stuck -/

theorem leads_closed : (Stage.closed .lost).prog.Leads
    (scheduleReconnect >>= fun _ => return .done) := by
  refine .call fun r => ?_
  cases r <;> exact .here _

theorem leads_closingConnection (connection : Option Connection) :
    (Stage.closingConnection .lost connection).prog.Leads
      (scheduleReconnect >>= fun _ => return .done) := by
  cases connection with
  | none =>
    refine .call fun r => ?_
    cases r <;> exact leads_closed
  | some c =>
    refine .call fun r => ?_
    cases r <;> exact leads_closed

theorem leads_closingChannel (channel : Option Channel) (connection : Option Connection) :
    (Stage.closingChannel .lost channel connection).prog.Leads
      (scheduleReconnect >>= fun _ => return .done) := by
  cases channel with
  | none =>
    refine .call fun r => ?_
    cases r <;> exact leads_closingConnection connection
  | some ch =>
    refine .call fun r => ?_
    cases r <;> exact leads_closingConnection connection

/-- Whatever the two closes come to, the listener calls `scheduleReconnect`. -/
theorem leads_of_kind {st : Stage} (hk : st.kind = some .lost) :
    st.prog.Leads (scheduleReconnect >>= fun _ => return .done) := by
  cases st with
  | closingChannel closer channel connection =>
    cases closer with
    | attempt => cases hk
    | lost => exact leads_closingChannel channel connection
  | closingConnection closer connection =>
    cases closer with
    | attempt => cases hk
    | lost => exact leads_closingConnection connection
  | closed closer =>
    cases closer with
    | attempt => cases hk
    | lost => exact leads_closed
  | _ => cases hk

/-- Who owes a connection is an attempt, or a listener at its closing step. -/
theorem owing_cases {σ : StagedState} (hσ : ReconnectInv σ)
    (h : HasStage σ.stages fun _ st => st.Reconnects σ.world) :
    Connecting (queueStages.state σ) ∨ ClosingLost (queueStages.state σ) := by
  obtain ⟨i, t, st, hi, hst⟩ := h
  have htask := state_task hi
  have hkind : st.kind ≠ some .destroy ∧ st.kind ≠ none := by
    cases st with
    | closingChannel closer channel connection => cases closer <;> simp [Stage.kind, Closer.kind]
    | closingConnection closer connection => cases closer <;> simp [Stage.kind, Closer.kind]
    | closed closer => cases closer <;> simp [Stage.kind, Closer.kind]
    | destroyingChannel channel => cases hst
    | destroyingConnection connection => cases hst
    | ended outcome => cases hst
    | _ => simp [Stage.kind]
  have hflight := (inFlight_state hi).mpr hkind.2
  obtain hover | hof := hσ.kinds i t st hi
  · exact absurd hover hkind.2
  · cases t with
    | init => exact .inl ⟨i, _, htask, .inl rfl, hflight⟩
    | timer timer => exact .inl ⟨i, _, htask, .inr ⟨timer, rfl⟩, hflight⟩
    | lost c => exact .inr ⟨i, _, c, htask, rfl, hflight, leads_of_kind hof⟩
    | publish event full => exact absurd hof hkind.2
    | health => exact absurd hof hkind.2
    | destroy => exact absurd hof hkind.1

/-- The client is never stuck, and has at most one timer. -/
theorem never_stuck {config : QueueConfig} {random : ℕ → ℚ} {ls : List Label} {s : State}
    (hrun : queueLoop.run ls (State.initial config random) = some s) :
    (s.world.initialised = true → s.world.this.isShuttingDown = false → NotStuck s) ∧
      s.world.timers.length ≤ 1 := by
  obtain ⟨σ, hσrun, rfl⟩ := run_stages hrun
  have hσ := reconnectInv_run hσrun
  constructor
  · intro hinit hdown
    obtain (hc | ht) | howed := hσ.provided hinit hdown
    · exact .inl hc
    · exact .inr (.inl ht)
    · exact .inr (.inr (owing_cases hσ howed))
  · have htimer : σ.world.timers = σ.world.this.reconnectTimer.toList := hσ.timer
    change σ.world.timers.length ≤ 1
    rw [htimer]
    cases σ.world.this.reconnectTimer <;> simp

def initThenLost : List Label :=
  initialise 0 ++ [.start 1 (.lost (0 : ℕ)), .resume 1 false]

theorem never_stuck_lost :
    ∃ s, queueLoop.run initThenLost (State.initial localBroker fun _ => 0) = some s ∧
      s.world.this.connection = none ∧ NotStuck s ∧ s.world.timers.length ≤ 1 := by
  have h : (queueLoop.run initThenLost (State.initial localBroker fun _ => 0)).map
      (fun s => (s.world.this.connection, s.world.initialised, s.world.this.isShuttingDown)) =
        some (none, true, false) := by decide +kernel
  obtain ⟨s, hrun, hs⟩ := Option.map_eq_some_iff.mp h
  simp only [Prod.mk.injEq] at hs
  obtain ⟨hnotStuck, htimers⟩ := never_stuck hrun
  exact ⟨s, hrun, hs.1, hnotStuck hs.2.1 hs.2.2, htimers⟩

end TalentFlow.Queue
