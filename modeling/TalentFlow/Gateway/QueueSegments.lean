import TalentFlow.Gateway.QueueStages

/-!
# Gateway.QueueSegments

Everything one segment of `QueueService` can do, said once for each thing the guarantees speak of:
how a task begins, what it does to connections and channels, of what kind it stays, and that shutting
down is for good.
-/

namespace TalentFlow.Queue

open Async

/-! ## How a task begins -/

/-- How a task begins, case by case. -/
inductive Begins (w : World) : Trigger → Stage → World → Prop where
  | init (h : w.initialised = false) : Begins w .init w.attempt { w with initialised := true }
  | timer (t : Timer) (h : t ∈ w.timers) : Begins w (.timer t) w.attempt
      { w with timers := w.timers.erase t, this := { w.this with reconnectTimer := none } }
  | lost (c : Connection) (hc : c ∈ w.listening) (h : w.this.isShuttingDown = false) :
      Begins w (.lost c) (w.takeDown .lost).1 (w.takeDown .lost).2
  | lostLate (c : Connection) (hc : c ∈ w.listening) (h : w.this.isShuttingDown = true) :
      Begins w (.lost c) (.ended (.ok .done)) w
  | publishNothing (event : CvUploadedEvent) (full : Bool) (h : w.this.channel = none) :
      Begins w (.publish event full) (.ended (.error (.error "RabbitMQ channel not initialized")))
        { w with full := full }
  | publish (event : CvUploadedEvent) (full : Bool) (channel : Channel)
      (h : w.this.channel = some channel) (outcome : Except Error Result) :
      Begins w (.publish event full) (.ended outcome)
        { w with full := full, published := w.published ++ [(channel, event)] }
  | health : Begins w .health
      (.ended (.ok (.healthy (w.this.connection.isSome && w.this.channel.isSome)))) w
  | destroy (hi : w.initialised = true) (h : w.this.isShuttingDown = false) :
      Begins w .destroy (.destroyingChannel w.this.channel)
        (w.shutDown.closeChannel w.this.channel)

theorem begin_cases {t : Trigger} {w w' : World} {st : Stage}
    (h : Stage.begin t w = some (st, w')) : Begins w t st w' := by
  cases t with
  | init =>
    simp only [Stage.begin] at h
    split at h
    · cases h
    · next hw =>
      cases h
      exact .init (by simpa using hw)
  | timer t =>
    simp only [Stage.begin] at h
    split at h
    · next ht =>
      cases h
      exact .timer t ht
    · cases h
  | lost c =>
    simp only [Stage.begin] at h
    split at h
    · next hc =>
      split at h
      · next hd =>
        cases h
        exact .lostLate c hc hd
      · next hd =>
        cases h
        exact .lost c hc (by simpa using hd)
    · cases h
  | publish event full =>
    simp only [Stage.begin] at h
    split at h
    · next hc =>
      cases h
      exact .publishNothing event full hc
    · next channel hc =>
      cases h
      exact .publish event full channel hc _
  | health =>
    cases h
    exact .health
  | destroy =>
    simp only [Stage.begin] at h
    split at h
    · next hw =>
      cases h
      exact .destroy hw.1 hw.2
    · cases h

theorem attempt_cases (w : World) :
    (∃ url, w.attempt = .connecting url w.config.connectionOptions) ∨
      ∃ e, w.attempt = .failing .connect e := by
  unfold World.attempt
  split
  · exact .inr ⟨_, rfl⟩
  · exact .inl ⟨_, rfl⟩

/-! ## What a segment does to connections and channels -/

/-- The connection that a clean-up has taken from its field, and is going to close after the
channel. -/
def Stage.hands : Stage → Option Connection
  | closingChannel _ _ connection => connection
  | _ => none

structure World.SameHoldings (w w' : World) : Prop where
  connection : w'.this.connection = w.this.connection
  channel : w'.this.channel = w.this.channel
  isShuttingDown : w'.this.isShuttingDown = w.this.isShuttingDown
  opened : w'.opened = w.opened
  channels : w'.channels = w.channels
  closed : w'.closed = w.closed
  closedChannels : w'.closedChannels = w.closedChannels

theorem World.SameHoldings.refl (w : World) : w.SameHoldings w :=
  ⟨rfl, rfl, rfl, rfl, rfl, rfl, rfl⟩

theorem schedule_same (w : World) : w.SameHoldings w.schedule := by
  unfold World.schedule
  split <;> exact ⟨rfl, rfl, rfl, rfl, rfl, rfl, rfl⟩

inductive Moves : Stage → Bool → World → Stage → World → Prop where
  | obtain {url : String} {options : ConnectionOptions} {w : World} :
      Moves (.connecting url options) true w (.opening w.opened) w.obtain
  | openChannel {c : Connection} {w : World} {st' : Stage} (h : st'.hands = none) :
      Moves (.opening c) true w st' (w.openChannel c)
  | takeDown {part : Part} {e : Error} {ok : Bool} {w : World} :
      Moves (.failing part e) ok w (w.takeDown .attempt).1 (w.takeDown .attempt).2
  | close {closer : Closer} {channel : Option Channel} {connection : Option Connection} {ok : Bool}
      {w : World} : Moves (.closingChannel closer channel connection) ok w
        (.closingConnection closer connection) (w.closeConnection connection)
  | destroyChannel {channel : Option Channel} {ok : Bool} {w : World} :
      Moves (.destroyingChannel channel) ok w (.destroyingConnection w.this.connection)
        (w.closeConnection w.this.connection)
  | destroyed {connection : Option Connection} {ok : Bool} {w : World} :
      Moves (.destroyingConnection connection) ok w (.ended (.ok .done)) w.cleanUp
  | quiet {st : Stage} {ok : Bool} {w : World} {st' : Stage} {w' : World} (h : st.hands = none)
      (h' : st'.hands = none) (hw : w.SameHoldings w') : Moves st ok w st' w'

theorem declareNext_hands (w : World) (own : Channel) (step : TopologyStep) :
    (w.declareNext own step).hands = none := by
  unfold World.declareNext
  split <;> rfl

theorem moves_next {st st' : Stage} {ok : Bool} {w w' : World} {a : Answered Api}
    (h : st.next ok w = some (a, st', w')) : Moves st ok w st' w' := by
  cases st with
  | connecting url options =>
    cases ok <;> cases h
    · exact .quiet rfl rfl (.refl w)
    · exact .obtain
  | opening c =>
    cases ok <;> cases h
    · exact .quiet rfl rfl (.refl w)
    · refine .openChannel ?_
      split <;> rfl
  | connected own =>
    cases h
    refine .quiet rfl ?_ (.refl w)
    split
    · rfl
    · exact declareNext_hands w own _
  | declaring own step on =>
    cases ok <;> cases h
    · exact .quiet rfl rfl (.refl w)
    · refine .quiet rfl ?_ (.refl w)
      split
      · exact declareNext_hands w own _
      · rfl
  | configured own => cases h; exact .quiet rfl rfl ⟨rfl, rfl, rfl, rfl, rfl, rfl, rfl⟩
  | failing part e => cases h; exact .takeDown
  | closingChannel closer channel connection => cases h; exact .close
  | closingConnection closer connection => cases h; exact .quiet rfl rfl (.refl w)
  | closed closer =>
    cases closer <;> cases h
    · exact .quiet rfl rfl (.refl w)
    · exact .quiet rfl rfl (schedule_same w)
  | cleaned => cases h; exact .quiet rfl rfl (schedule_same w)
  | destroyingChannel channel =>
    simp only [Stage.next] at h
    split at h <;> cases h
    · exact .destroyChannel
    · exact .quiet rfl rfl (.refl w)
  | destroyingConnection connection =>
    simp only [Stage.next] at h
    split at h <;> cases h
    · exact .destroyed
    · exact .quiet rfl rfl (.refl w)
  | ended outcome => cases h

/-- What the first segment of a task does to connections and channels. -/
inductive Opens (w : World) : Trigger → Stage → World → Prop where
  | takeDown (c : Connection) (h : w.this.isShuttingDown = false) :
      Opens w (.lost c) (w.takeDown .lost).1 (w.takeDown .lost).2
  | destroy : Opens w .destroy (.destroyingChannel w.this.channel)
      (w.shutDown.closeChannel w.this.channel)
  | quiet {t : Trigger} {st : Stage} {w' : World} (h : st.hands = none) (hw : w.SameHoldings w') :
      Opens w t st w'

theorem opens_begin {t : Trigger} {w w' : World} {st : Stage}
    (h : Stage.begin t w = some (st, w')) : Opens w t st w' := by
  have hattempt : w.attempt.hands = none := by
    obtain ⟨url, hw⟩ | ⟨e, hw⟩ := attempt_cases w <;> rw [hw] <;> rfl
  cases begin_cases h with
  | init _ => exact .quiet hattempt ⟨rfl, rfl, rfl, rfl, rfl, rfl, rfl⟩
  | timer t _ => exact .quiet hattempt ⟨rfl, rfl, rfl, rfl, rfl, rfl, rfl⟩
  | lost c _ hd => exact .takeDown c hd
  | lostLate c _ _ => exact .quiet rfl (.refl w)
  | publishNothing event full _ => exact .quiet rfl ⟨rfl, rfl, rfl, rfl, rfl, rfl, rfl⟩
  | publish event full channel _ outcome =>
    exact .quiet rfl ⟨rfl, rfl, rfl, rfl, rfl, rfl, rfl⟩
  | health => exact .quiet rfl (.refl w)
  | destroy _ _ => exact .destroy

/-! ## Kinds of tasks -/

/-- The methods that are suspended on the way. -/
inductive Kind where
  | attempt
  | lost
  | destroy
  deriving DecidableEq

def Closer.kind : Closer → Kind
  | attempt => .attempt
  | lost => .lost

def Stage.kind : Stage → Option Kind
  | connecting _ _ => some .attempt
  | opening _ => some .attempt
  | connected _ => some .attempt
  | declaring _ _ _ => some .attempt
  | configured _ => some .attempt
  | failing _ _ => some .attempt
  | closingChannel closer _ _ => some closer.kind
  | closingConnection closer _ => some closer.kind
  | closed closer => some closer.kind
  | cleaned => some .attempt
  | destroyingChannel _ => some .destroy
  | destroyingConnection _ => some .destroy
  | ended _ => none

def Trigger.kind : Trigger → Option Kind
  | init => some .attempt
  | timer _ => some .attempt
  | lost _ => some .lost
  | publish _ _ => none
  | health => none
  | destroy => some .destroy

/-- A task is in a stage of what has started it, or over. -/
def Stage.OfKind (t : Trigger) (st : Stage) : Prop := st.kind = none ∨ st.kind = t.kind

theorem attempt_kind (w : World) : w.attempt.kind = some .attempt := by
  obtain ⟨url, h⟩ | ⟨e, h⟩ := attempt_cases w <;> rw [h] <;> rfl

theorem declareNext_kind (w : World) (own : Channel) (step : TopologyStep) :
    (w.declareNext own step).kind = some .attempt := by
  unfold World.declareNext
  split <;> rfl

theorem kind_begin {t : Trigger} {w w' : World} {st : Stage}
    (h : Stage.begin t w = some (st, w')) : st.OfKind t := by
  cases begin_cases h with
  | init _ => exact .inr (attempt_kind w)
  | timer t _ => exact .inr (attempt_kind w)
  | lost c _ _ => exact .inr rfl
  | lostLate c _ _ => exact .inl rfl
  | publishNothing event full _ => exact .inl rfl
  | publish event full channel _ outcome => exact .inl rfl
  | health => exact .inl rfl
  | destroy _ _ => exact .inr rfl

theorem kind_next {st st' : Stage} {ok : Bool} {w w' : World} {a : Answered Api}
    (h : st.next ok w = some (a, st', w')) :
    st' = .ended (.ok .done) ∨ st.kind ≠ none ∧ st'.kind = st.kind := by
  cases st with
  | opening c =>
    right
    cases ok <;> cases h
    · exact ⟨Option.some_ne_none _, rfl⟩
    · refine ⟨Option.some_ne_none _, ?_⟩
      split <;> rfl
  | connected own =>
    right
    cases h
    refine ⟨Option.some_ne_none _, ?_⟩
    split
    · rfl
    · exact declareNext_kind w own _
  | declaring own step on =>
    right
    cases ok <;> cases h
    · exact ⟨Option.some_ne_none _, rfl⟩
    · refine ⟨Option.some_ne_none _, ?_⟩
      split
      · exact declareNext_kind w own _
      · rfl
  | closed closer =>
    cases closer <;> cases h
    · exact .inr ⟨Option.some_ne_none _, rfl⟩
    · exact .inl rfl
  | destroyingChannel channel =>
    simp only [Stage.next] at h
    split at h <;> cases h
    · exact .inr ⟨Option.some_ne_none _, rfl⟩
    · exact .inl rfl
  | connecting url options => cases ok <;> (cases h; exact .inr ⟨Option.some_ne_none _, rfl⟩)
  | configured own => cases h; exact .inl rfl
  | failing part e => cases h; exact .inr ⟨Option.some_ne_none _, rfl⟩
  | closingChannel closer channel connection => cases h; exact .inr ⟨Option.some_ne_none _, rfl⟩
  | closingConnection closer connection => cases h; exact .inr ⟨Option.some_ne_none _, rfl⟩
  | cleaned => cases h; exact .inl rfl
  | destroyingConnection connection => cases h; exact .inl rfl
  | ended outcome => cases h

structure World.SameTimers (w w' : World) : Prop where
  isShuttingDown : w'.this.isShuttingDown = w.this.isShuttingDown
  reconnectTimer : w'.this.reconnectTimer = w.this.reconnectTimer
  timers : w'.timers = w.timers
  published : w'.published = w.published

theorem timers_next {st st' : Stage} {ok : Bool} {w w' : World} {a : Answered Api}
    (h : st.next ok w = some (a, st', w')) : w.SameTimers w' ∨ w' = w.schedule := by
  cases st with
  | closed closer =>
    cases closer <;> cases h
    · exact .inl ⟨rfl, rfl, rfl, rfl⟩
    · exact .inr rfl
  | cleaned =>
    cases h
    exact .inr rfl
  | destroyingChannel channel =>
    simp only [Stage.next] at h
    split at h <;> (cases h; exact .inl ⟨rfl, rfl, rfl, rfl⟩)
  | destroyingConnection connection =>
    simp only [Stage.next] at h
    split at h <;> (cases h; exact .inl ⟨rfl, rfl, rfl, rfl⟩)
  | ended outcome => cases h
  | _ => cases ok <;> (cases h; exact .inl ⟨rfl, rfl, rfl, rfl⟩)

theorem isShuttingDown_next {st st' : Stage} {ok : Bool} {w w' : World} {a : Answered Api}
    (h : st.next ok w = some (a, st', w')) :
    w'.this.isShuttingDown = w.this.isShuttingDown := by
  obtain hsame | rfl := timers_next h
  · exact hsame.isShuttingDown
  · exact (schedule_same w).isShuttingDown

theorem isShuttingDown_begin {t : Trigger} {w w' : World} {st : Stage}
    (h : Stage.begin t w = some (st, w')) :
    w'.this.isShuttingDown = true ↔ w.this.isShuttingDown = true ∨ st.kind = some .destroy := by
  have hattempt := attempt_kind w
  cases begin_cases h with
  | init _ => simp [hattempt]
  | timer t _ => simp [hattempt]
  | destroy _ _ => simp [World.shutDown, World.closeChannel, Stage.kind]
  | lost c _ _ => simp [World.takeDown, World.closeChannel, World.cleanUp, Stage.kind, Closer.kind]
  | lostLate c _ _ => simp [Stage.kind]
  | publishNothing event full _ => simp [Stage.kind]
  | publish event full channel _ outcome => simp [Stage.kind]
  | health => simp [Stage.kind]

/-- Only a service that is shutting down is at a stage of `onModuleDestroy`. -/
def Stage.Destroys (w : World) (st : Stage) : Prop :=
  st.kind = some .destroy → w.this.isShuttingDown = true

theorem call?_eq_none {st : Stage} : st.call? = none ↔ st.kind = none := by
  cases st <;> simp [Stage.call?, Stage.kind]

/-! ## Steps of the staging -/

theorem inFlight_state {σ : StagedState} {i : ℕ} {t : Trigger} {st : Stage}
    (h : σ.stages i = some (t, st)) : (queueStages.state σ).InFlight i ↔ st.kind ≠ none := by
  rw [EventLoop.State.InFlight, state_awaits h, ne_eq, call?_eq_none]

theorem destroys_step {l : Label} {σ σ' : StagedState} (h : queueStages.step l σ = some σ')
    (hσ : EachStage σ.stages fun _ st => st.Destroys σ.world) :
    EachStage σ'.stages fun _ st => st.Destroys σ'.world := by
  obtain ⟨i, t, st, w, -, -, hb, rfl⟩ | ⟨i, ok, t, st, a, st', w, -, hi, hn, rfl⟩ :=
    Staging.staged_cases h
  · have hdown := isShuttingDown_begin hb
    have hold := hσ.mono fun _ st hd hk => hdown.mpr (.inl (hd hk))
    exact hold.update fun hk => hdown.mpr (.inr hk)
  · have hdown := isShuttingDown_next hn
    have hold := hσ.mono fun _ st hd hk => hdown.trans (hd hk)
    refine hold.update fun hk => hdown.trans (hσ i t st hi ?_)
    obtain rfl | ⟨-, hkind⟩ := kind_next hn
    · cases hk
    · rw [← hkind, hk]

theorem isShuttingDown_step {l : Label} {σ σ' : StagedState}
    (h : queueStages.step l σ = some σ') (hdown : σ'.world.this.isShuttingDown = false) :
    σ.world.this.isShuttingDown = false := by
  obtain ⟨i, t, st, w, -, -, hb, rfl⟩ | ⟨i, ok, t, st, a, st', w, -, hi, hn, rfl⟩ :=
    Staging.staged_cases h
  · cases hd : σ.world.this.isShuttingDown with
    | false => rfl
    | true =>
      have hw : w.this.isShuttingDown = true := (isShuttingDown_begin hb).mpr (.inl hd)
      exact hw.symm.trans hdown
  · exact (isShuttingDown_next hn).symm.trans hdown

theorem ofKind_step {l : Label} {σ σ' : StagedState} (h : queueStages.step l σ = some σ')
    (hσ : EachStage σ.stages fun t st => st.OfKind t) :
    EachStage σ'.stages fun t st => st.OfKind t := by
  obtain ⟨i, t, st, w, -, -, hb, rfl⟩ | ⟨i, ok, t, st, a, st', w, -, hi, hn, rfl⟩ :=
    Staging.staged_cases h
  · exact hσ.update (kind_begin hb)
  · refine hσ.update ?_
    obtain rfl | ⟨-, hkind⟩ := kind_next hn
    · exact .inl rfl
    · unfold Stage.OfKind
      rw [hkind]
      exact hσ i t st hi

theorem idle_of_run {config : QueueConfig} {random : ℕ → ℚ} {ls : List Label} {s : State} {n : ℕ}
    (hrun : queueLoop.run ls (State.initial config random) = some s)
    (hls : ls.all fun l => l.task < n) (hover : (List.range n).all fun i => (s.awaits i).isNone) :
    ∀ i, s.awaits i = none := by
  intro i
  by_cases hi : i < n
  · simpa using List.all_eq_true.mp hover i (List.mem_range.mpr hi)
  · have hnone : s.tasks i = none := EventLoop.run_tasks_of_ne hrun fun l hl heq => by
      have := List.all_eq_true.mp hls l hl
      simp only [decide_eq_true_eq] at this
      omega
    simp [EventLoop.State.awaits, hnone]

end TalentFlow.Queue
