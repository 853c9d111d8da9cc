import TalentFlow.Guarantees.Connections
import TalentFlow.Guarantees.Reconnect

/-!
# Guarantees.Shutdown

What is left when the queue client has been shut down and all its tasks are over: no timer, no
connection or channel in the fields, and `close()` called on every connection that was opened. That
takes closes that do not reject, for `onModuleDestroy` gives up after the first that does, and no
attempt that comes to something behind its back.

* `Unfinished`: the tasks that still clear the fields, or would fill them.
* `shutdown_clean`: every run that meets the condition.
* `shutdown_not_clean`: a channel that does not close, and an attempt that outlives the shutdown.
-/

namespace TalentFlow.Queue

open Async Queue.QueueService

structure World.Clean (w : World) : Prop where
  timers : w.timers = []
  connection : w.this.connection = none
  channel : w.this.channel = none
  closed : ∀ c < w.opened, c ∈ w.closed

/-! ## When it ends well -/

def DestroyOver (s : State) : Prop :=
  s.world.this.isShuttingDown = true ∧
    ∀ i task, s.tasks i = some task → task.origin = .destroy → ¬ s.InFlight i

def World.HeldClosed (w : World) : Prop := ∀ c, w.this.connection = some c → c ∈ w.closed

/-- The four steps that would leave something behind are not among the steps of a run. -/
structure LeavesNothing (s : State) (l : Label) : Prop where
  /-- an attempt stores its connection over an open one -/
  connect : ∀ i url options, l = .resume i true → s.awaits i = some (.connect url options) →
    s.world.HeldClosed
  /-- a close that `onModuleDestroy` awaits rejects -/
  close : ∀ i task, l = .resume i false → s.tasks i = some task → task.origin = .destroy →
    s.awaits i = some (.promise (.ok ()))
  /-- `onModuleDestroy` clears the fields over a connection that has come between its closes -/
  cleanUp : ∀ i ok task x, l = .resume i ok → s.tasks i = some task → task.origin = .destroy →
    task.prog = (Stage.destroyingConnection x).prog → s.world.HeldClosed
  /-- an attempt succeeds when `onModuleDestroy` is over -/
  succeed : ∀ i ok task own, l = .resume i ok → s.tasks i = some task →
    task.prog = (Stage.configured own).prog → DestroyOver s →
    s.world.this.connection = none ∧ s.world.this.channel = none

/-! ## The fields -/

/-- The task clears the fields at its end, or it is on the way to fill them. -/
def Stage.Unfinished : Stage → Prop
  | opening _ => True
  | connected _ => True
  | declaring _ _ _ => True
  | configured _ => True
  | failing _ _ => True
  | destroyingChannel _ => True
  | destroyingConnection _ => True
  | _ => False

def World.Empty (w : World) : Prop := w.this.connection = none ∧ w.this.channel = none

section Steps

variable {st st' : Stage} {ok : Bool} {w w' : World} {a : Answered Api} {t : Trigger}

theorem World.Empty.same (h : w.Empty) (hw : w.SameHoldings w') : w'.Empty :=
  ⟨hw.connection.trans h.1, hw.channel.trans h.2⟩

theorem declareNext_unfinished (w : World) (own : Channel) (step : TopologyStep) :
    (w.declareNext own step).Unfinished := by
  unfold World.declareNext
  split <;> trivial

/-- After a segment: the fields are empty, or the task is unfinished; if not, it has left the fields
as they were, and it was finished before or is an attempt that has succeeded. -/
theorem finishes_next (h : st.next ok w = some (a, st', w'))
    (hclose : st.kind = some .destroy → ok = false → st.call? = some (.promise (.ok ()))) :
    w'.Empty ∨ st'.Unfinished ∨
      (w.Empty → w'.Empty) ∧ (¬ st.Unfinished ∨ ∃ own, st = .configured own) := by
  cases st with
  | connecting url options =>
    cases ok <;> cases h
    · exact .inr (.inl trivial)
    · exact .inr (.inl trivial)
  | opening c =>
    right; left
    cases ok <;> cases h
    · trivial
    · split <;> trivial
  | connected own =>
    right; left
    cases h
    split
    · trivial
    · exact declareNext_unfinished w own _
  | declaring own step on =>
    right; left
    cases ok <;> cases h
    · trivial
    · split
      · exact declareNext_unfinished w own _
      · trivial
  | configured own =>
    cases h
    exact .inr (.inr ⟨id, .inr ⟨own, rfl⟩⟩)
  | failing part e =>
    cases h
    exact .inl ⟨rfl, rfl⟩
  | closingChannel closer channel connection =>
    cases h
    exact .inr (.inr ⟨id, .inl id⟩)
  | closingConnection closer connection =>
    cases h
    exact .inr (.inr ⟨id, .inl id⟩)
  | closed closer =>
    cases closer <;> cases h
    · exact .inr (.inr ⟨id, .inl id⟩)
    · exact .inr (.inr ⟨fun hw => hw.same (schedule_same w), .inl id⟩)
  | cleaned =>
    cases h
    exact .inr (.inr ⟨fun hw => hw.same (schedule_same w), .inl id⟩)
  | destroyingChannel channel =>
    simp only [Stage.next] at h
    split at h
    · cases h
      exact .inr (.inl trivial)
    · next hok =>
      simp only [Bool.or_eq_true, not_or, Bool.not_eq_true, Option.isNone_eq_false_iff] at hok
      obtain ⟨ch, rfl⟩ := Option.isSome_iff_exists.mp hok.2
      cases hclose rfl hok.1
  | destroyingConnection connection =>
    simp only [Stage.next] at h
    split at h
    · cases h
      exact .inl ⟨rfl, rfl⟩
    · next hok =>
      simp only [Bool.or_eq_true, not_or, Bool.not_eq_true, Option.isNone_eq_false_iff] at hok
      obtain ⟨c, rfl⟩ := Option.isSome_iff_exists.mp hok.2
      cases hclose rfl hok.1
  | ended outcome => cases h

theorem finishes_begin (h : Stage.begin t w = some (st, w'))
    (hdown : w'.this.isShuttingDown = true) : st.Unfinished ∨ (w.Empty → w'.Empty) := by
  cases opens_begin h with
  | takeDown c hd => exact absurd (hdown.symm.trans hd) (by simp)
  | destroy => exact .inl trivial
  | quiet _ hw => exact .inr fun he => he.same hw

theorem reconnectTimer_next (h : st.next ok w = some (a, st', w'))
    (hdown : w.this.isShuttingDown = true) :
    w'.this.reconnectTimer = w.this.reconnectTimer := by
  obtain hsame | rfl := timers_next h
  · exact hsame.reconnectTimer
  · simp [World.schedule, hdown]

theorem reconnectTimer_begin (h : Stage.begin t w = some (st, w')) :
    w'.this.reconnectTimer = none ∨ w'.this.reconnectTimer = w.this.reconnectTimer ∧
      w'.this.isShuttingDown = w.this.isShuttingDown := by
  cases begin_cases h with
  | timer t _ => exact .inl rfl
  | destroy _ _ => exact .inl rfl
  | _ => exact .inr ⟨rfl, rfl⟩

end Steps

/-! ## The invariant -/

structure ShutdownInv (σ : StagedState) : Prop where
  kinds : EachStage σ.stages fun t st => st.OfKind t
  timer : σ.world.TimerKnown
  cleared : σ.world.this.isShuttingDown = true → σ.world.this.reconnectTimer = none
  accounted : ∀ c < σ.world.opened, Accounted σ.world σ.stages c
  fields : σ.world.this.isShuttingDown = true →
    σ.world.Empty ∨ HasStage σ.stages fun _ st => st.Unfinished

theorem unfinished_of_destroy {st : Stage} (h : st.kind = some .destroy) : st.Unfinished := by
  cases st with
  | closingChannel closer channel connection => cases closer <;> cases h
  | closingConnection closer connection => cases closer <;> cases h
  | closed closer => cases closer <;> cases h
  | _ => first | trivial | cases h

theorem shutdownInv_start {σ : StagedState} {i : ℕ} {t : Trigger} {st : Stage} {w : World}
    (hσ : ShutdownInv σ) (hi : σ.stages i = none) (hb : Stage.begin t σ.world = some (st, w)) :
    ShutdownInv
      { σ with world := w, stages := Function.update σ.stages i (some (t, st)) } := by
  have hdown := isShuttingDown_begin hb
  refine ⟨hσ.kinds.update (kind_begin hb), timerKnown_begin hb hσ.timer, fun hd => ?_,
    accounted_begin (opens_begin hb) hi hσ.accounted, fun hd => ?_⟩
  · obtain hnone | ⟨hsame, hshut⟩ := reconnectTimer_begin hb
    · exact hnone
    · exact hsame.trans (hσ.cleared (hshut.symm.trans hd))
  · obtain hun | hkeep := finishes_begin hb hd
    · exact .inr (hasStage_update hun)
    · obtain hold | hk := hdown.mp hd
      · refine owed_update (hσ.fields hold) (.inr (.inr ⟨hkeep, fun _ _ => id, ?_⟩))
        intro t st hi'
        rw [hi] at hi'
        cases hi'
      · exact .inr (hasStage_update (unfinished_of_destroy hk))

/-- When an attempt succeeds, `onModuleDestroy` is over and the fields are empty, or it is not and
will clear them. -/
theorem fields_succeed {σ : StagedState} {i : ℕ} {t : Trigger} {own : Channel} {x : Trigger × Stage}
    (hσ : ShutdownInv σ) (hi : σ.stages i = some (t, .configured own))
    (hdown : σ.world.this.isShuttingDown = true)
    (hover : DestroyOver (queueStages.state σ) → σ.world.Empty) :
    σ.world.Empty ∨ HasStage (Function.update σ.stages i (some x)) fun _ st => st.Unfinished := by
  by_cases h : DestroyOver (queueStages.state σ)
  · exact .inl (hover h)
  · have hflight : ∃ j task, (queueStages.state σ).tasks j = some task ∧ task.origin = .destroy ∧
        (queueStages.state σ).InFlight j := by
      by_contra hnone
      refine h ⟨hdown, fun j task hj horigin hfl => hnone ⟨j, task, hj, horigin, hfl⟩⟩
    obtain ⟨j, task, hj, horigin, hfl⟩ := hflight
    obtain ⟨⟨t', st⟩, hj', rfl⟩ := Option.map_eq_some_iff.mp hj
    have htrigger : t' = .destroy := horigin
    subst htrigger
    have hkind : st.kind = some .destroy :=
      (hσ.kinds j _ st hj').resolve_left ((inFlight_state hj').mp hfl)
    have hne : j ≠ i := by
      rintro rfl
      rw [hi] at hj'
      cases hj'
      cases hkind
    refine .inr ⟨j, .destroy, st, ?_, unfinished_of_destroy hkind⟩
    rwa [Function.update_of_ne hne]

theorem shutdownInv_step {l : Label} {σ σ' : StagedState} (hσ : ShutdownInv σ)
    (hl : LeavesNothing (queueStages.state σ) l) (h : queueStages.step l σ = some σ') :
    ShutdownInv σ' := by
  have hkinds := ofKind_step h hσ.kinds
  obtain ⟨i, t, st, w, rfl, hi, hb, rfl⟩ | ⟨i, ok, t, st, a, st', w, rfl, hi, hn, rfl⟩ :=
    Staging.staged_cases h
  · exact shutdownInv_start hσ hi hb
  · have hshut := isShuttingDown_next hn
    have horigin : st.kind = some .destroy → t = .destroy := by
      intro hk
      obtain hover | hof := hσ.kinds i t st hi
      · cases hk.symm.trans hover
      · rw [hk] at hof
        cases t <;> first | rfl | cases hof
    refine ⟨hkinds, timerKnown_next hn hσ.timer, fun hd => ?_, ?_, fun hd => ?_⟩
    · have hold := hshut.symm.trans hd
      exact (reconnectTimer_next hn hold).trans (hσ.cleared hold)
    · refine accounted_next (moves_next hn) hi ?_ ?_ hσ.accounted
      · rintro url options rfl rfl
        exact hl.connect i url options rfl (state_awaits hi)
      · rintro x rfl
        exact hl.cleanUp i ok _ x rfl (state_task hi) (horigin rfl) rfl
    · have hold := hσ.fields (hshut.symm.trans hd)
      have hclose : st.kind = some .destroy → ok = false →
          st.call? = some (.promise (.ok ())) := by
        rintro hk rfl
        rw [← state_awaits hi]
        exact hl.close i _ rfl (state_task hi) (horigin hk)
      obtain hempty | hun | ⟨hkeep, hnot | ⟨own, rfl⟩⟩ := finishes_next hn hclose
      · exact .inl hempty
      · exact .inr (hasStage_update hun)
      · refine owed_update hold (.inr (.inr ⟨hkeep, fun _ _ => id, fun t' st₁ hi' => ?_⟩))
        rw [hi] at hi'
        cases hi'
        exact hnot
      · have hover := hl.succeed i ok _ own rfl (state_task hi) rfl
        obtain hempty | hothers := fields_succeed hσ hi (hshut.symm.trans hd) hover
        · exact .inl (hkeep hempty)
        · exact .inr hothers

/-- When everything that was started is over, nothing is left. -/
theorem shutdown_clean {config : QueueConfig} {random : ℕ → ℚ} {ls : List Label} {s : State}
    (hcond : queueLoop.Along LeavesNothing ls (State.initial config random))
    (hrun : queueLoop.run ls (State.initial config random) = some s)
    (hdown : s.world.this.isShuttingDown = true) (hover : ∀ i, ¬ s.InFlight i) :
    s.world.Clean := by
  obtain ⟨σ, hσrun, rfl⟩ := run_stages hrun
  have hinit : ShutdownInv (StagedState.initial config random) := by
    refine ⟨?_, rfl, ?_, ?_, ?_⟩
    · intro i t st hi; cases hi
    · intro hd; cases hd
    · intro c hc; cases hc
    · intro hd; cases hd
  have hσ := Runs.run_induction_along ShutdownInv shutdownInv_step hinit
    (Staging.along_staged hcond) hσrun
  have hkind : ∀ i t st, σ.stages i = some (t, st) → st.kind = none := by
    intro i t st hi
    by_contra hk
    exact hover i ((inFlight_state hi).mpr hk)
  have hempty : σ.world.Empty := by
    obtain hempty | ⟨i, t, st, hi, hun⟩ := hσ.fields hdown
    · exact hempty
    · have hk := hkind i t st hi
      cases st with
      | ended outcome => cases hun
      | _ => cases hk
  refine ⟨?_, hempty.1, hempty.2, fun c hc => ?_⟩
  · have htimers : σ.world.timers = σ.world.this.reconnectTimer.toList := hσ.timer
    change σ.world.timers = []
    rw [htimers, hσ.cleared hdown, Option.toList_none]
  · obtain hheld | hclosed | ⟨i, t, st, hi, hhands⟩ := hσ.accounted c hc
    · rw [hempty.1] at hheld
      cases hheld
    · exact hclosed
    · have hk := hkind i t st hi
      cases st with
      | ended outcome => cases hhands
      | _ => cases hk

/-! ## Runs -/

/-- What an orderly step may resolve. -/
def Call.Orderly (w : World) : Call → Prop
  | .connect _ _ => w.this.connection = none
  | .closeChannel _ => True
  | .closeConnection _ => ∀ c ∈ w.this.connection, c ∈ w.closed
  | _ => w.this.isShuttingDown = false

instance (w : World) : ∀ call, Decidable (Call.Orderly w call)
  | .connect _ _ => inferInstanceAs (Decidable (_ = _))
  | .closeChannel _ => .isTrue trivial
  | .closeConnection _ => inferInstanceAs (Decidable (∀ c ∈ w.this.connection, _))
  | .createChannel _ => inferInstanceAs (Decidable (_ = false))
  | .declare _ _ => inferInstanceAs (Decidable (_ = false))
  | .promise _ => inferInstanceAs (Decidable (_ = false))
  | .update _ => inferInstanceAs (Decidable (_ = false))
  | .config => inferInstanceAs (Decidable (_ = false))
  | .random => inferInstanceAs (Decidable (_ = false))
  | .setTimeout _ => inferInstanceAs (Decidable (_ = false))
  | .clearTimeout _ => inferInstanceAs (Decidable (_ = false))
  | .on _ => inferInstanceAs (Decidable (_ = false))
  | .publish _ _ => inferInstanceAs (Decidable (_ = false))

/-- Enough for `LeavesNothing`: calls resolve, attempts go on only before the shutdown, and what
`onModuleDestroy` awaits are closes. -/
def Orderly (s : State) : Label → Prop
  | .start _ _ => True
  | .resume i ok => ok = true ∧ (∀ call ∈ s.awaits i, call.Orderly s.world) ∧
      ((s.tasks i).map (·.origin) = some .destroy → s.world.this.isShuttingDown = true)

instance (s : State) : ∀ l, Decidable (Orderly s l)
  | .start _ _ => .isTrue trivial
  | .resume i _ => inferInstanceAs
      (Decidable (_ = true ∧ (∀ call ∈ s.awaits i, call.Orderly s.world) ∧ (_ → _)))

theorem leavesNothing_of_orderly {s : State} {l : Label} (h : Orderly s l) :
    LeavesNothing s l := by
  constructor
  · rintro i url options rfl hcall c hc
    have hnone : s.world.this.connection = none := h.2.1 _ hcall
    rw [hnone] at hc
    cases hc
  · rintro i task rfl
    cases h.1
  · rintro i ok task x rfl hi horigin hprog
    have hcall : s.awaits i = some (closeConnectionCall x) := by
      rw [EventLoop.State.awaits, hi, Option.bind_some, hprog]
      exact prog_next? (.destroyingConnection x)
    cases x with
    | some c => exact h.2.1 _ hcall
    | none =>
      have hup : s.world.this.isShuttingDown = false := h.2.1 _ hcall
      have hdown := h.2.2 (by rw [hi, Option.map_some, horigin])
      exact absurd (hdown.symm.trans hup) (by simp)
  · rintro i ok task own rfl hi hprog hover
    have hcall : s.awaits i = some (.promise (.ok ())) := by
      rw [EventLoop.State.awaits, hi, Option.bind_some, hprog]
      exact prog_next? (.configured own)
    have hup : s.world.this.isShuttingDown = false := h.2.1 _ hcall
    exact absurd (hover.1.symm.trans hup) (by simp)

def shutDownConnected : List Label :=
  initialise 0 ++ .start 1 .destroy :: List.replicate 2 (.resume 1 true)

theorem shutdown_clean_connected :
    ∃ s, queueLoop.run shutDownConnected (State.initial localBroker fun _ => 0) = some s ∧
      s.world.opened = 1 ∧ s.world.Clean := by
  have h : (queueLoop.run shutDownConnected (State.initial localBroker fun _ => 0)).map
      (fun s => (s.world.opened, s.world.this.isShuttingDown,
        (List.range 2).all fun i => (s.awaits i).isNone)) = some (1, true, true) := by
    decide +kernel
  have hcond : queueLoop.Along Orderly shutDownConnected
      (State.initial localBroker fun _ => 0) := by decide +kernel
  obtain ⟨s, hrun, hs⟩ := Option.map_eq_some_iff.mp h
  simp only [Prod.mk.injEq] at hs
  obtain ⟨hopened, hdown, hover⟩ := hs
  have hidle := idle_of_run hrun (by decide) hover
  refine ⟨s, hrun, hopened, shutdown_clean ?_ hrun hdown fun i hi => hi (hidle i)⟩
  exact Runs.along_mono hcond fun _ _ => leavesNothing_of_orderly

/-- The channel of a connected service does not close. -/
def channelStaysOpen : List Label := initialise 0 ++ [.start 1 .destroy, .resume 1 false]

/-- `onModuleDestroy` runs while the first attempt awaits its connection. -/
def shutDownConnecting : List Label :=
  [.start 0 .init, .start 1 .destroy, .resume 1 true, .resume 1 true] ++
    List.replicate 8 (.resume 0 true)

/-- The schedule leads to where the service has been shut down and nothing is in flight, and where a
connection is held that `close()` was never called on. -/
def EndsUnclean (ls : List Label) : Prop :=
  ∃ s, queueLoop.run ls (State.initial localBroker fun _ => 0) = some s ∧
    s.world.this.isShuttingDown = true ∧ (∀ i, ¬ s.InFlight i) ∧
    s.world.this.connection = some (0 : ℕ) ∧ (0 : ℕ) ∉ s.world.closed ∧ ¬ s.world.Clean

theorem endsUnclean_of_run {ls : List Label}
    (h : (queueLoop.run ls (State.initial localBroker fun _ => 0)).map (fun s =>
      (s.world.this.isShuttingDown, (List.range 2).all fun i => (s.awaits i).isNone,
        s.world.this.connection, s.world.closed)) = some (true, true, some (0 : ℕ), []))
    (hls : ls.all fun l => l.task < 2) : EndsUnclean ls := by
  obtain ⟨s, hrun, hs⟩ := Option.map_eq_some_iff.mp h
  simp only [Prod.mk.injEq] at hs
  obtain ⟨hdown, hover, hheld, hclosed⟩ := hs
  have hidle := idle_of_run hrun hls hover
  refine ⟨s, hrun, hdown, fun i hi => hi (hidle i), hheld, ?_, fun hclean => ?_⟩
  · rw [hclosed]
    exact List.not_mem_nil
  · rw [hclean.connection] at hheld
    cases hheld

theorem shutdown_not_clean : EndsUnclean channelStaysOpen ∧ EndsUnclean shutDownConnecting := by
  constructor
  · exact endsUnclean_of_run (by decide +kernel) (by decide)
  · exact endsUnclean_of_run (by decide +kernel) (by decide)

end TalentFlow.Queue
