import TalentFlow.Gateway.QueueSegments

/-!
# Guarantees.Connections

Whose the connections of the queue client are. A connection that `connect()` has obtained is the one
in `this.connection`, or a clean-up has taken it from there and is about to close it, or `close()` has
been called on it: unless an attempt stores its connection over another one's, or its channel beside
another one's connection.

* `Accounted`: every connection is held, closed or in the hands of a clean-up.
* `connections_owned`: before shutdown, when attempts do not overlap.
* `connection_leaked`: two attempts at once leave one connection to nobody.
* `connection_kept`: a connection with its channel stays while nobody interferes.
* `connection_dropped`: a late `close` of an earlier connection takes it down.
-/

namespace TalentFlow.Queue

open Async Queue.QueueService

/-! ## Every connection is accounted for -/

/-- No connection is left to nobody, and the channel is one of the connection's. -/
structure World.OwnsAtMostOne (w : World) : Prop where
  connections : ∀ c < w.opened, w.this.connection = some c ∨ c ∈ w.closed
  channel : ∀ ch, w.this.channel = some ch → w.this.connection = some ch.connection

/-- A clean-up is closing the channel, with a connection to close after it. -/
def TakingDown (s : State) : Prop :=
  ∃ i task closer channel connection, s.tasks i = some task ∧
    task.prog = closeFrom closer (safeCloseResources channel (some connection))

/-- Held, closed or in the hands of a clean-up. -/
def Accounted (w : World) (stages : ℕ → Option (Trigger × Stage)) (c : Connection) : Prop :=
  w.this.connection = some c ∨ c ∈ w.closed ∨ HasStage stages fun _ st => st.hands = some c

section Steps

variable {st st' : Stage} {ok : Bool} {w w' : World} {t : Trigger} {c : Connection} {i : ℕ}
  {stages : ℕ → Option (Trigger × Stage)}

/-- What one task does to one connection: who gives it up passes it on. -/
theorem Accounted.update (h : Accounted w stages c) (t : Trigger)
    (hheld : w.this.connection = some c →
      w'.this.connection = some c ∨ c ∈ w'.closed ∨ st'.hands = some c)
    (hclosed : ∀ c ∈ w.closed, c ∈ w'.closed)
    (hhands : ∀ t st, stages i = some (t, st) → st.hands = some c → c ∈ w'.closed) :
    Accounted w' (Function.update stages i (some (t, st'))) c := by
  obtain hc | hc | ⟨j, t', st, hj, hst⟩ := h
  · obtain hc | hc | hc := hheld hc
    · exact .inl hc
    · exact .inr (.inl hc)
    · exact .inr (.inr (hasStage_update hc))
  · exact .inr (.inl (hclosed c hc))
  · by_cases hji : j = i
    · subst hji
      exact .inr (.inl (hhands t' st hj hst))
    · exact .inr (.inr ⟨j, t', st, by rwa [Function.update_of_ne hji], hst⟩)

theorem accounted_next (hm : Moves st ok w st' w') (hi : stages i = some (t, st))
    (hconnect : ∀ url options, st = .connecting url options → ok = true →
      ∀ c, w.this.connection = some c → c ∈ w.closed)
    (hdestroy : ∀ x, st = .destroyingConnection x → ∀ c, w.this.connection = some c → c ∈ w.closed)
    (h : ∀ c < w.opened, Accounted w stages c) :
    ∀ c < w'.opened, Accounted w' (Function.update stages i (some (t, st'))) c := by
  intro c hc
  have hnone : st.hands = none → ∀ t st, stages i = some (t, st) → st.hands = some c →
      c ∈ w'.closed := by
    intro hst t' st₁ hi' hc
    rw [hi] at hi'
    cases hi'
    rw [hst] at hc
    cases hc
  cases hm with
  | @obtain url options =>
    obtain hold | rfl : c < w.opened ∨ c = w.opened := Nat.lt_succ_iff_lt_or_eq.mp hc
    · exact (h c hold).update t (fun hc => .inr (.inl (hconnect url options rfl rfl c hc)))
        (fun _ => id) (hnone rfl)
    · exact .inl rfl
  | openChannel _ => exact (h c hc).update t .inl (fun _ => id) (hnone rfl)
  | takeDown => exact (h c hc).update t (fun hc => .inr (.inr hc)) (fun _ => id) (hnone rfl)
  | @close closer channel connection =>
    refine (h c hc).update t .inl (fun _ => List.mem_append_left _) fun t' st' hi' hhands => ?_
    rw [hi] at hi'
    cases hi'
    have hconnection : connection = some c := hhands
    simp [World.closeConnection, hconnection]
  | destroyChannel =>
    exact (h c hc).update t .inl (fun _ => List.mem_append_left _) (hnone rfl)
  | destroyed =>
    exact (h c hc).update t (fun hc => .inr (.inl (hdestroy _ rfl c hc))) (fun _ => id)
      (hnone rfl)
  | quiet hst _ hw =>
    exact (h c (hw.opened ▸ hc)).update t (fun hc => .inl (hw.connection.trans hc))
      (fun _ hc => hw.closed ▸ hc) (hnone hst)

theorem accounted_begin (ho : Opens w t st w') (hi : stages i = none)
    (h : ∀ c < w.opened, Accounted w stages c) :
    ∀ c < w'.opened, Accounted w' (Function.update stages i (some (t, st))) c := by
  intro c hc
  have hnone : ∀ t st, stages i = some (t, st) → st.hands = some c → c ∈ w'.closed := by
    intro t st hi'
    rw [hi] at hi'
    cases hi'
  cases ho with
  | takeDown c' _ => exact (h c hc).update _ (fun hc => .inr (.inr hc)) (fun _ => id) hnone
  | destroy => exact (h c hc).update _ .inl (fun _ => id) hnone
  | quiet _ hw =>
    exact (h c (hw.opened ▸ hc)).update t (fun hc => .inl (hw.connection.trans hc))
      (fun _ hc => hw.closed ▸ hc) hnone

def World.ChannelOfConnection (w : World) : Prop :=
  ∀ ch, w.this.channel = some ch → w.this.connection = some ch.connection

theorem channelOfConnection_next (hm : Moves st ok w st' w')
    (hconnect : ∀ url options, st = .connecting url options → ok = true →
      w.this.connection = none)
    (hcreate : ∀ c, st = .opening c → ok = true → w.this.connection = some c)
    (h : w.ChannelOfConnection) : w'.ChannelOfConnection := by
  intro ch hch
  cases hm with
  | @obtain url options =>
    have hc := h ch hch
    rw [hconnect url options rfl rfl] at hc
    cases hc
  | @openChannel c =>
    cases hch
    exact hcreate c rfl rfl
  | takeDown => cases hch
  | close => exact h ch hch
  | destroyChannel => exact h ch hch
  | destroyed => cases hch
  | quiet _ _ hw =>
    rw [hw.channel] at hch
    exact hw.connection.trans (h ch hch)

theorem channelOfConnection_begin (ho : Opens w t st w') (h : w.ChannelOfConnection) :
    w'.ChannelOfConnection := by
  intro ch hch
  cases ho with
  | takeDown => cases hch
  | destroy => exact h ch hch
  | quiet _ hw =>
    rw [hw.channel] at hch
    exact hw.connection.trans (h ch hch)

end Steps

/-! ## Attempts that do not overlap -/

/-- What the call resolves to fits what is held: no connection is, or the one to create a channel
on. -/
def Call.Fits (w : World) : Call → Prop
  | .connect _ _ => w.this.connection = none
  | .createChannel connection => w.this.connection = some connection
  | _ => True

instance (w : World) : ∀ call, Decidable (Call.Fits w call)
  | .connect _ _ => inferInstanceAs (Decidable (_ = _))
  | .createChannel _ => inferInstanceAs (Decidable (_ = _))
  | .update _ => .isTrue trivial
  | .config => .isTrue trivial
  | .random => .isTrue trivial
  | .setTimeout _ => .isTrue trivial
  | .clearTimeout _ => .isTrue trivial
  | .on _ => .isTrue trivial
  | .publish _ _ => .isTrue trivial
  | .declare _ _ => .isTrue trivial
  | .closeChannel _ => .isTrue trivial
  | .closeConnection _ => .isTrue trivial
  | .promise _ => .isTrue trivial

/-- No `connect()` resolves while a connection is held, and no `createChannel()` for a connection
that is not. -/
def NoOverlap (s : State) : Label → Prop
  | .resume i true => ∀ call ∈ s.awaits i, call.Fits s.world
  | _ => True

instance (s : State) : ∀ l, Decidable (NoOverlap s l)
  | .resume i true => inferInstanceAs (Decidable (∀ call ∈ s.awaits i, _))
  | .resume _ false => .isTrue trivial
  | .start _ _ => .isTrue trivial

structure OwnedInv (σ : StagedState) : Prop where
  destroying : EachStage σ.stages fun _ st => st.Destroys σ.world
  accounted : σ.world.this.isShuttingDown = false →
    ∀ c < σ.world.opened, Accounted σ.world σ.stages c
  channel : σ.world.this.isShuttingDown = false → σ.world.ChannelOfConnection

theorem ownedInv_step {l : Label} {σ σ' : StagedState} (hσ : OwnedInv σ)
    (hl : NoOverlap (queueStages.state σ) l) (h : queueStages.step l σ = some σ') :
    OwnedInv σ' := by
  have hdestroying := destroys_step h hσ.destroying
  have hdown := isShuttingDown_step h
  obtain ⟨i, t, st, w, -, hi, hb, rfl⟩ | ⟨i, ok, t, st, a, st', w, rfl, hi, hn, rfl⟩ :=
    Staging.staged_cases h
  · have ho := opens_begin hb
    refine ⟨hdestroying, fun hd => ?_, fun hd => ?_⟩
    · exact accounted_begin ho hi (hσ.accounted (hdown hd))
    · exact channelOfConnection_begin ho (hσ.channel (hdown hd))
  · have hm := moves_next hn
    have hconnect : ∀ url options, st = .connecting url options → ok = true →
        σ.world.this.connection = none := by
      rintro url options rfl rfl
      exact hl (.connect url options) (state_awaits hi)
    have hcreate : ∀ c, st = .opening c → ok = true → σ.world.this.connection = some c := by
      rintro c rfl rfl
      exact hl (.createChannel c) (state_awaits hi)
    refine ⟨hdestroying, fun hd => ?_, fun hd => ?_⟩
    · refine accounted_next hm hi (fun url options hst hok c hc => ?_) (fun x hst => ?_)
        (hσ.accounted (hdown hd))
      · rw [hconnect url options hst hok] at hc
        cases hc
      · subst hst
        have hshut := hσ.destroying i t _ hi rfl
        rw [hdown hd] at hshut
        cases hshut
    · exact channelOfConnection_next hm hconnect hcreate (hσ.channel (hdown hd))

/-- While attempts do not overlap, every connection is held or closed, but for the one a clean-up is
about to close. -/
theorem connections_owned {config : QueueConfig} {random : ℕ → ℚ} {ls : List Label} {s : State}
    (hcond : queueLoop.Along NoOverlap ls (State.initial config random))
    (hrun : queueLoop.run ls (State.initial config random) = some s)
    (hdown : s.world.this.isShuttingDown = false) (hclosing : ¬ TakingDown s) :
    s.world.OwnsAtMostOne := by
  obtain ⟨σ, hσrun, rfl⟩ := run_stages hrun
  have hinit : OwnedInv (StagedState.initial config random) := by
    refine ⟨?_, ?_, ?_⟩
    · intro i t st hi; cases hi
    · intro _ c hc; cases hc
    · intro _ ch hch; cases hch
  have hσ := Runs.run_induction_along OwnedInv ownedInv_step hinit
    (Staging.along_staged hcond) hσrun
  refine ⟨fun c hc => ?_, hσ.channel hdown⟩
  obtain hheld | hclosed | ⟨i, t, st, hi, hst⟩ := hσ.accounted hdown c hc
  · exact .inl hheld
  · exact .inr hclosed
  · cases st with
    | closingChannel closer channel connection =>
      have hconnection : connection = some c := hst
      subst hconnection
      exact absurd ⟨i, _, closer, channel, c, state_task hi, rfl⟩ hclosing
    | _ => cases hst

theorem not_takingDown_of_idle {s : State} (h : ∀ i, s.awaits i = none) : ¬ TakingDown s := by
  rintro ⟨i, task, closer, channel, connection, hi, hprog⟩
  have hcall : s.awaits i = (Stage.closingChannel closer channel (some connection)).call? := by
    rw [EventLoop.State.awaits, hi, Option.bind_some, hprog]
    exact prog_next? (.closingChannel closer channel (some connection))
  rw [h i] at hcall
  cases hcall

/-- A connection is lost, and a timer opens the next one. -/
def lostAndBack : List Label :=
  initialise 0 ++ .start 1 (.lost (0 : ℕ)) :: List.replicate 3 (.resume 1 true) ++
    .start 2 (.timer ⟨0, 1000⟩) :: List.replicate 8 (.resume 2 true)

theorem connections_owned_back :
    ∃ s, queueLoop.run lostAndBack (State.initial localBroker fun _ => 0) = some s ∧
      s.world.opened = 2 ∧ s.world.OwnsAtMostOne := by
  have h : (queueLoop.run lostAndBack (State.initial localBroker fun _ => 0)).map
      (fun s => (s.world.opened, s.world.this.isShuttingDown,
        (List.range 3).all fun i => (s.awaits i).isNone)) = some (2, false, true) := by
    decide +kernel
  obtain ⟨s, hrun, hs⟩ := Option.map_eq_some_iff.mp h
  simp only [Prod.mk.injEq] at hs
  have hidle := idle_of_run hrun (by decide) hs.2.2
  refine ⟨s, hrun, hs.1, connections_owned (by decide +kernel) hrun hs.2.1 ?_⟩
  exact not_takingDown_of_idle hidle

/-- The connection emits `error` and, when the reconnect timer has fired, `close`: a second attempt
starts beside the first. Both run to their ends. -/
def twoAttempts : List Label :=
  initialise 0 ++ .start 1 (.lost (0 : ℕ)) :: List.replicate 3 (.resume 1 true) ++
    .start 2 (.timer ⟨0, 1000⟩) :: .start 3 (.lost (0 : ℕ)) :: List.replicate 3 (.resume 3 true) ++
    .start 4 (.timer ⟨1, 2000⟩) :: .resume 2 true :: .resume 4 true ::
    List.replicate 7 (.resume 2 true) ++ List.replicate 7 (.resume 4 true)

theorem connection_leaked :
    ∃ s, queueLoop.run twoAttempts (State.initial localBroker fun _ => 0) = some s ∧
      s.world.this.isShuttingDown = false ∧ (∀ i < 5, s.awaits i = none) ∧
      ¬ s.world.OwnsAtMostOne := by
  have h : (queueLoop.run twoAttempts (State.initial localBroker fun _ => 0)).map
      (fun s => (s.world.this.isShuttingDown, (List.range 5).all fun i => (s.awaits i).isNone,
        s.world.this.connection, s.world.opened, s.world.closed)) =
      some (false, true, some (2 : ℕ), 3, [(0 : ℕ)]) := by decide +kernel
  obtain ⟨s, hrun, hs⟩ := Option.map_eq_some_iff.mp h
  simp only [Prod.mk.injEq] at hs
  obtain ⟨hdown, hover, hheld, hopened, hclosed⟩ := hs
  refine ⟨s, hrun, hdown, fun i hi => ?_, fun howns => ?_⟩
  · simpa using List.all_eq_true.mp hover i (List.mem_range.mpr hi)
  · obtain hc | hc := howns.connections (1 : ℕ) (by rw [hopened]; decide)
    · rw [hheld] at hc
      cases hc
    · rw [hclosed] at hc
      simp at hc

/-! ## What is held is open -/

/-- What a clean-up has in hand was opened, and is not held. -/
def Stage.Apart (w : World) (st : Stage) : Prop :=
  ∀ c, st.hands = some c → c < w.opened ∧ w.this.connection ≠ some c

structure World.Numbered (w : World) : Prop where
  connection : ∀ c, w.this.connection = some c → c < w.opened
  closed : ∀ c ∈ w.closed, c < w.opened
  channel : ∀ ch, w.this.channel = some ch → ch.id < w.channels
  closedChannels : ∀ ch ∈ w.closedChannels, ch.id < w.channels

structure World.HeldOpen (w : World) : Prop where
  connection : ∀ c, w.this.connection = some c → c ∉ w.closed
  channel : ∀ ch, w.this.channel = some ch → ch ∉ w.closedChannels

section Steps

variable {st st' : Stage} {ok : Bool} {w w' : World} {t : Trigger}

theorem Stage.Apart.of_hands (h : st.hands = none) (w : World) : st.Apart w := by
  intro c hc
  rw [h] at hc
  cases hc

theorem Stage.Apart.mono (h : st.Apart w) (hopened : w.opened ≤ w'.opened)
    (hheld : ∀ c < w.opened, w'.this.connection = some c → w.this.connection = some c) :
    st.Apart w' := by
  intro c hc
  obtain ⟨hlt, hne⟩ := h c hc
  exact ⟨Nat.lt_of_lt_of_le hlt hopened, fun hc' => hne (hheld c hlt hc')⟩

theorem held_next (hm : Moves st ok w st' w') : w.opened ≤ w'.opened ∧
    ∀ c < w.opened, w'.this.connection = some c → w.this.connection = some c := by
  cases hm with
  | obtain =>
    refine ⟨Nat.le_succ _, fun c hlt hc => ?_⟩
    cases hc
    exact absurd hlt (Nat.lt_irrefl _)
  | openChannel _ => exact ⟨Nat.le_refl _, fun _ _ => id⟩
  | takeDown => exact ⟨Nat.le_refl _, fun _ _ hc => by cases hc⟩
  | close => exact ⟨Nat.le_refl _, fun _ _ => id⟩
  | destroyChannel => exact ⟨Nat.le_refl _, fun _ _ => id⟩
  | destroyed => exact ⟨Nat.le_refl _, fun _ _ hc => by cases hc⟩
  | quiet _ _ hw => exact ⟨hw.opened.ge, fun _ _ hc => hw.connection ▸ hc⟩

theorem held_begin (ho : Opens w t st w') : w.opened ≤ w'.opened ∧
    ∀ c < w.opened, w'.this.connection = some c → w.this.connection = some c := by
  cases ho with
  | takeDown c _ => exact ⟨Nat.le_refl _, fun _ _ hc => by cases hc⟩
  | destroy => exact ⟨Nat.le_refl _, fun _ _ => id⟩
  | quiet _ hw => exact ⟨hw.opened.ge, fun _ _ hc => hw.connection ▸ hc⟩

theorem apart_takeDown (h : w.Numbered) (closer : Closer) :
    (w.takeDown closer).1.Apart (w.takeDown closer).2 :=
  fun c hc => ⟨h.connection c hc, fun hnone => by cases hnone⟩

theorem apart_next (hm : Moves st ok w st' w') (h : w.Numbered) : st'.Apart w' := by
  cases hm with
  | obtain => exact .of_hands rfl _
  | openChannel hst => exact .of_hands hst _
  | takeDown => exact apart_takeDown h .attempt
  | close => exact .of_hands rfl _
  | destroyChannel => exact .of_hands rfl _
  | destroyed => exact .of_hands rfl _
  | quiet _ hst _ => exact .of_hands hst _

theorem apart_begin (ho : Opens w t st w') (h : w.Numbered) : st.Apart w' := by
  cases ho with
  | takeDown c _ => exact apart_takeDown h .lost
  | destroy => exact .of_hands rfl _
  | quiet hst _ => exact .of_hands hst _

theorem World.Numbered.same (h : w.Numbered) (hw : w.SameHoldings w') : w'.Numbered := by
  constructor
  · rw [hw.connection, hw.opened]
    exact h.connection
  · rw [hw.closed, hw.opened]
    exact h.closed
  · rw [hw.channel, hw.channels]
    exact h.channel
  · rw [hw.closedChannels, hw.channels]
    exact h.closedChannels

theorem numbered_takeDown (h : w.Numbered) (closer : Closer) : (w.takeDown closer).2.Numbered := by
  refine ⟨fun c hc => (by cases hc), h.closed, fun ch hch => (by cases hch), fun ch hch => ?_⟩
  obtain hold | hnew := List.mem_append.mp hch
  · exact h.closedChannels ch hold
  · exact h.channel ch (by simpa using hnew)

theorem numbered_closeConnection (h : w.Numbered) {x : Option Connection}
    (hx : ∀ c, x = some c → c < w.opened) : (w.closeConnection x).Numbered := by
  refine ⟨h.connection, fun c hc => ?_, h.channel, h.closedChannels⟩
  obtain hold | hnew := List.mem_append.mp hc
  · exact h.closed c hold
  · exact hx c (by simpa using hnew)

theorem numbered_next (hm : Moves st ok w st' w') (hst : st.Apart w) (h : w.Numbered) :
    w'.Numbered := by
  cases hm with
  | obtain =>
    refine ⟨fun c hc => ?_, fun c hc => Nat.lt_succ_of_lt (h.closed c hc), h.channel,
      h.closedChannels⟩
    cases hc
    exact Nat.lt_succ_self _
  | openChannel _ =>
    refine ⟨h.connection, h.closed, fun ch hch => ?_,
      fun ch hch => Nat.lt_succ_of_lt (h.closedChannels ch hch)⟩
    cases hch
    exact Nat.lt_succ_self _
  | takeDown => exact numbered_takeDown h .attempt
  | close => exact numbered_closeConnection h fun c hc => (hst c hc).1
  | destroyChannel => exact numbered_closeConnection h h.connection
  | destroyed =>
    exact ⟨fun c hc => (by cases hc), h.closed, fun ch hch => (by cases hch), h.closedChannels⟩
  | quiet _ _ hw => exact h.same hw

theorem numbered_begin (ho : Opens w t st w') (h : w.Numbered) : w'.Numbered := by
  cases ho with
  | takeDown c _ => exact numbered_takeDown h .lost
  | destroy =>
    refine ⟨h.connection, h.closed, h.channel, fun ch hch => ?_⟩
    obtain hold | hnew := List.mem_append.mp hch
    · exact h.closedChannels ch hold
    · exact h.channel ch (by simpa using hnew)
  | quiet _ hw => exact h.same hw

theorem World.HeldOpen.same (h : w.HeldOpen) (hw : w.SameHoldings w') : w'.HeldOpen := by
  constructor
  · rw [hw.connection, hw.closed]
    exact h.connection
  · rw [hw.channel, hw.closedChannels]
    exact h.channel

theorem heldOpen_next (hm : Moves st ok w st' w') (hdestroy : st.kind ≠ some .destroy)
    (hst : st.Apart w) (hw : w.Numbered) (h : w.HeldOpen) : w'.HeldOpen := by
  cases hm with
  | obtain =>
    refine ⟨fun c hc hclosed => ?_, h.channel⟩
    cases hc
    exact absurd (hw.closed _ hclosed) (Nat.lt_irrefl _)
  | openChannel _ =>
    refine ⟨h.connection, fun ch hch hclosed => ?_⟩
    cases hch
    exact absurd (hw.closedChannels _ hclosed) (Nat.lt_irrefl _)
  | takeDown => exact ⟨fun c hc => (by cases hc), fun ch hch => (by cases hch)⟩
  | close =>
    refine ⟨fun c hc hclosed => ?_, h.channel⟩
    obtain hold | hnew := List.mem_append.mp hclosed
    · exact h.connection c hc hold
    · have hhands := Option.mem_toList.mp hnew
      exact (hst c hhands).2 hc
  | destroyChannel => exact absurd rfl hdestroy
  | destroyed => exact absurd rfl hdestroy
  | quiet _ _ hw => exact h.same hw

theorem heldOpen_begin (ho : Opens w t st w') (hdestroy : st.kind ≠ some .destroy)
    (h : w.HeldOpen) : w'.HeldOpen := by
  cases ho with
  | takeDown c _ => exact ⟨fun c hc => (by cases hc), fun ch hch => (by cases hch)⟩
  | destroy => exact absurd rfl hdestroy
  | quiet _ hw => exact h.same hw

end Steps

structure HeldInv (σ : StagedState) : Prop where
  destroying : EachStage σ.stages fun _ st => st.Destroys σ.world
  numbered : σ.world.Numbered
  apart : EachStage σ.stages fun _ st => st.Apart σ.world
  held : σ.world.this.isShuttingDown = false → σ.world.HeldOpen

theorem heldInv_step {l : Label} {σ σ' : StagedState} (hσ : HeldInv σ)
    (h : queueStages.step l σ = some σ') : HeldInv σ' := by
  have hdestroying := destroys_step h hσ.destroying
  have hdown := isShuttingDown_step h
  obtain ⟨i, t, st, w, -, hi, hb, rfl⟩ | ⟨i, ok, t, st, a, st', w, -, hi, hn, rfl⟩ :=
    Staging.staged_cases h
  · have ho := opens_begin hb
    obtain ⟨hopened, hheld⟩ := held_begin ho
    have hothers := hσ.apart.mono fun _ _ hst => hst.mono hopened hheld
    refine ⟨hdestroying, numbered_begin ho hσ.numbered,
      hothers.update (apart_begin ho hσ.numbered), fun hd => ?_⟩
    refine heldOpen_begin ho (fun hk => ?_) (hσ.held (hdown hd))
    have hshut := hdestroying i t st (Function.update_self ..) hk
    exact absurd (hshut.symm.trans hd) (by simp)
  · have hm := moves_next hn
    have hst := hσ.apart i t st hi
    obtain ⟨hopened, hheld⟩ := held_next hm
    have hothers := hσ.apart.mono fun _ _ hst => hst.mono hopened hheld
    refine ⟨hdestroying, numbered_next hm hst hσ.numbered,
      hothers.update (apart_next hm hσ.numbered), fun hd => ?_⟩
    refine heldOpen_next hm (fun hk => ?_) hst hσ.numbered (hσ.held (hdown hd))
    have hshut := hσ.destroying i t st hi hk
    exact absurd (hshut.symm.trans (hdown hd)) (by simp)

theorem heldInv_run {config : QueueConfig} {random : ℕ → ℚ} {ls : List Label} {σ : StagedState}
    (h : queueStages.run ls (StagedState.initial config random) = some σ) : HeldInv σ := by
  have hinit : HeldInv (StagedState.initial config random) := by
    refine ⟨?_, ⟨?_, ?_, ?_, ?_⟩, ?_, fun _ => ⟨?_, ?_⟩⟩
    · intro i t st hi; cases hi
    · intro c hc; cases hc
    · intro c hc; cases hc
    · intro ch hch; cases hch
    · intro ch hch; cases hch
    · intro i t st hi; cases hi
    · intro c hc; cases hc
    · intro ch hch; cases hch
  exact Runs.run_induction HeldInv heldInv_step hinit h

/-! ## A connection is kept -/

structure World.Keeps (w : World) (c : Connection) (ch : Channel) : Prop where
  connection : w.this.connection = some c
  channel : w.this.channel = some ch
  connectionOpen : c ∉ w.closed
  channelOpen : ch ∉ w.closedChannels

/-- Neither does the connection emit `error` or `close`, nor does `onModuleDestroy` run. -/
def Until (c : Connection) (_ : State) : Label → Prop
  | .start _ (.lost c') => c' ≠ c
  | .start _ .destroy => False
  | _ => True

instance (c : Connection) (s : State) : ∀ l, Decidable (Until c s l)
  | .start _ (.lost _) => inferInstanceAs (Decidable (_ ≠ _))
  | .start _ .destroy => .isFalse id
  | .start _ .init => .isTrue trivial
  | .start _ (.timer _) => .isTrue trivial
  | .start _ (.publish _ _) => .isTrue trivial
  | .start _ .health => .isTrue trivial
  | .resume _ _ => .isTrue trivial

/-- What an attempt awaits leads to its next fields, or to its `catch`. -/
def Call.Interferes (ok : Bool) : Call → Prop
  | .connect _ _ => ok = true
  | .createChannel _ => ok = true
  | .promise (.error _) => True
  | _ => False

instance (ok : Bool) : ∀ call, Decidable (Call.Interferes ok call)
  | .connect _ _ => inferInstanceAs (Decidable (_ = _))
  | .createChannel _ => inferInstanceAs (Decidable (_ = _))
  | .promise (.error _) => .isTrue trivial
  | .promise (.ok _) => .isFalse id
  | .update _ => .isFalse id
  | .config => .isFalse id
  | .random => .isFalse id
  | .setTimeout _ => .isFalse id
  | .clearTimeout _ => .isFalse id
  | .on _ => .isFalse id
  | .publish _ _ => .isFalse id
  | .declare _ _ => .isFalse id
  | .closeChannel _ => .isFalse id
  | .closeConnection _ => .isFalse id

/-- No other connection emits anything that is listened to, no attempt obtains a connection or a
channel, and none that has failed goes on to its `catch`. -/
def NoInterference (c : Connection) (s : State) : Label → Prop
  | .start _ (.lost c') => c' = c
  | .start _ _ => True
  | .resume i ok => ∀ call ∈ s.awaits i, ¬ call.Interferes ok

instance (c : Connection) (s : State) : ∀ l, Decidable (NoInterference c s l)
  | .start _ (.lost _) => inferInstanceAs (Decidable (_ = _))
  | .start _ .init => .isTrue trivial
  | .start _ (.timer _) => .isTrue trivial
  | .start _ (.publish _ _) => .isTrue trivial
  | .start _ .health => .isTrue trivial
  | .start _ .destroy => .isTrue trivial
  | .resume i ok => inferInstanceAs (Decidable (∀ call ∈ s.awaits i, ¬ call.Interferes ok))

structure KeptInv (c : Connection) (ch : Channel) (σ : StagedState) : Prop where
  destroying : EachStage σ.stages fun _ st => st.kind ≠ some .destroy
  hands : EachStage σ.stages fun _ st => st.hands ≠ some c
  keeps : σ.world.Keeps c ch

theorem World.Keeps.same {w w' : World} {c : Connection} {ch : Channel} (h : w.Keeps c ch)
    (hw : w.SameHoldings w') : w'.Keeps c ch := by
  constructor
  · exact hw.connection.trans h.connection
  · exact hw.channel.trans h.channel
  · rw [hw.closed]
    exact h.connectionOpen
  · rw [hw.closedChannels]
    exact h.channelOpen

theorem keptInv_step {c : Connection} {ch : Channel} {l : Label} {σ σ' : StagedState}
    (hσ : KeptInv c ch σ)
    (hl : Until c (queueStages.state σ) l ∧ NoInterference c (queueStages.state σ) l)
    (h : queueStages.step l σ = some σ') : KeptInv c ch σ' := by
  obtain ⟨i, t, st, w, rfl, hi, hb, rfl⟩ | ⟨i, ok, t, st, a, st', w, rfl, hi, hn, rfl⟩ :=
    Staging.staged_cases h
  · cases opens_begin hb with
    | takeDown c' _ => exact absurd hl.2 hl.1
    | destroy => exact absurd hl.1 id
    | quiet hst hw =>
      refine ⟨hσ.destroying.update fun hk => ?_, hσ.hands.update ?_, hσ.keeps.same hw⟩
      · obtain hover | hof := kind_begin hb
        · exact absurd (hover.symm.trans hk) (by simp)
        · cases t with
          | destroy => exact hl.1
          | _ => cases hof.symm.trans hk
      · rw [hst]
        simp
  · have hcall := hl.2
    have hst := hσ.destroying i t st hi
    have hkind : st'.kind ≠ some .destroy := by
      obtain rfl | ⟨-, hsame⟩ := kind_next hn
      · nofun
      · rwa [hsame]
    cases moves_next hn with
    | obtain => exact absurd rfl (hcall _ (state_awaits hi))
    | openChannel _ => exact absurd rfl (hcall _ (state_awaits hi))
    | takeDown => exact absurd trivial (hcall _ (state_awaits hi))
    | @close closer channel connection =>
      have hne : connection ≠ some c := hσ.hands i t _ hi
      refine ⟨hσ.destroying.update hkind, hσ.hands.update nofun, hσ.keeps.connection,
        hσ.keeps.channel, fun hclosed => ?_, hσ.keeps.channelOpen⟩
      obtain hold | hnew := List.mem_append.mp hclosed
      · exact hσ.keeps.connectionOpen hold
      · exact hne (Option.mem_toList.mp hnew)
    | destroyChannel => exact absurd rfl hst
    | destroyed => exact absurd rfl hst
    | quiet hst hst' hw =>
      refine ⟨hσ.destroying.update hkind, hσ.hands.update ?_, hσ.keeps.same hw⟩
      rw [hst']
      simp

/-- From when a connection and its channel are held, they stay until the connection itself fails, if
nothing interferes. -/
theorem connection_kept {config : QueueConfig} {random : ℕ → ℚ} {ls ls' : List Label}
    {s s' : State} {c : Connection} {ch : Channel}
    (hrun : queueLoop.run ls (State.initial config random) = some s)
    (hdown : s.world.this.isShuttingDown = false) (hc : s.world.this.connection = some c)
    (hch : s.world.this.channel = some ch) (huntil : queueLoop.Along (Until c) ls' s)
    (hcond : queueLoop.Along (NoInterference c) ls' s) (hrun' : queueLoop.run ls' s = some s') :
    s'.world.Keeps c ch := by
  obtain ⟨σ, hσrun, rfl⟩ := run_stages hrun
  obtain ⟨σ', hσrun', rfl⟩ := Staging.run_staged hrun'
  have hσ := heldInv_run hσrun
  have hopen := hσ.held hdown
  have hkept : KeptInv c ch σ := by
    refine ⟨fun i t st hi hk => ?_, fun i t st hi hhands => ?_, hc, hch, hopen.connection c hc,
      hopen.channel ch hch⟩
    · have hshut := hσ.destroying i t st hi hk
      exact absurd (hshut.symm.trans hdown) (by simp)
    · exact (hσ.apart i t st hi c hhands).2 hc
  have hboth := Runs.along_and (Staging.along_staged huntil) (Staging.along_staged hcond)
  exact (Runs.run_induction_along (KeptInv c ch) keptInv_step hkept hboth hσrun').keeps

/-- The first connection emits `error`, and `close` while the next one is awaited. The second event
leaves a timer behind when the attempt has succeeded. -/
def lostTwice : List Label :=
  initialise 0 ++ .start 1 (.lost (0 : ℕ)) :: List.replicate 3 (.resume 1 true) ++
    .start 2 (.timer ⟨0, 1000⟩) :: .start 3 (.lost (0 : ℕ)) :: List.replicate 3 (.resume 3 true) ++
    List.replicate 8 (.resume 2 true)

/-- The timer starts another attempt, and a message is published before its `connect()` rejects. -/
def publishes : List Label :=
  [.start 4 (.timer ⟨1, 2000⟩), .start 5 (.publish cleosUpload false), .start 6 .health,
    .resume 4 false]

theorem connection_kept_publishing :
    ∃ s s', queueLoop.run lostTwice (State.initial localBroker fun _ => 0) = some s ∧
      queueLoop.run publishes s = some s' ∧ s'.world.Keeps (1 : ℕ) ⟨1, (1 : ℕ)⟩ ∧
      s'.awaits 4 ≠ none := by
  have h : (queueLoop.run lostTwice (State.initial localBroker fun _ => 0)).map
      (fun s => (s.world.this.isShuttingDown, s.world.this.connection, s.world.this.channel,
        decide (queueLoop.Along (Until (1 : ℕ)) publishes s ∧
          queueLoop.Along (NoInterference (1 : ℕ)) publishes s),
        (queueLoop.run publishes s).map fun s' => (s'.awaits 4).isSome)) =
      some (false, some (1 : ℕ), some ⟨1, (1 : ℕ)⟩, true, some true) := by decide +kernel
  obtain ⟨s, hrun, hs⟩ := Option.map_eq_some_iff.mp h
  simp only [Prod.mk.injEq, decide_eq_true_eq] at hs
  obtain ⟨hdown, hc, hch, ⟨huntil, hcond⟩, hlater⟩ := hs
  obtain ⟨s', hrun', hawaits⟩ := Option.map_eq_some_iff.mp hlater
  exact ⟨s, s', hrun, hrun', connection_kept hrun hdown hc hch huntil hcond hrun',
    Option.isSome_iff_ne_none.mp hawaits⟩

/-- Long after the first connection has emitted `error`, it emits `close`. -/
def lateClose : List Label := [.start 3 (.lost (0 : ℕ))]

/-- The connection that has taken its place is dropped. -/
theorem connection_dropped :
    ∃ s s', queueLoop.run lostAndBack (State.initial localBroker fun _ => 0) = some s ∧
      (∀ i, s.awaits i = none) ∧ s.world.this.connection = some (1 : ℕ) ∧
      s.world.this.channel = some ⟨1, (1 : ℕ)⟩ ∧ queueLoop.Along (Until (1 : ℕ)) lateClose s ∧
      queueLoop.run lateClose s = some s' ∧ s'.world.this.connection = none := by
  have h : (queueLoop.run lostAndBack (State.initial localBroker fun _ => 0)).map
      (fun s => ((List.range 3).all fun i => (s.awaits i).isNone, s.world.this.connection,
        s.world.this.channel, decide (queueLoop.Along (Until (1 : ℕ)) lateClose s),
        (queueLoop.run lateClose s).map fun s' => s'.world.this.connection)) =
      some (true, some (1 : ℕ), some ⟨1, (1 : ℕ)⟩, true, some none) := by decide +kernel
  obtain ⟨s, hrun, hs⟩ := Option.map_eq_some_iff.mp h
  simp only [Prod.mk.injEq, decide_eq_true_eq] at hs
  obtain ⟨hover, hc, hch, huntil, hlate⟩ := hs
  obtain ⟨s', hrun', hdropped⟩ := Option.map_eq_some_iff.mp hlate
  exact ⟨s, s', hrun, idle_of_run hrun (by decide) hover, hc, hch, huntil, hrun', hdropped⟩

end TalentFlow.Queue
