import TalentFlow.Gateway.QueueSegments

/-!
# Guarantees.Publishing

Publishing behind a configured topology. `connect` puts the channel into `this.channel` as soon as it
is there, and the four topology steps follow; whoever publishes or asks for the health in between does
so on a channel without a topology. When the attempt that created the channel is over, and the channel
is still held, all four steps have completed on it.

* `Stage.SetsUp`: how far the attempt is that created the channel.
* `published_behind_topology`: while no attempt for the held channel is in progress.
* `published_too_early`: between the channel and its topology.
-/

namespace TalentFlow.Queue

open Async

/-! ## What the log says -/

/-- The channel that the call has created. -/
def creates : Answered Api → Option Channel
  | ⟨.createChannel _, .ok channel⟩ => some channel
  | _ => none

/-- The declaration that has completed, and its channel. -/
def completes : Answered Api → Option (Channel × Declaration)
  | ⟨.declare channel d, .ok ()⟩ => some (channel, d)
  | _ => none

abbrev Log : Type := List (ℕ × Answered Api)

def Declared (log : Log) (channel : Channel) (step : TopologyStep) : Prop :=
  ∃ e ∈ log, completes e.2 = some (channel, step.declaration)

instance (log : Log) (channel : Channel) (step : TopologyStep) :
    Decidable (Declared log channel step) :=
  inferInstanceAs (Decidable (∃ e ∈ log, _))

def Configured (s : State) (channel : Channel) : Prop :=
  ∀ step ∈ TopologyStep.all, Declared s.log channel step

instance (s : State) (channel : Channel) : Decidable (Configured s channel) :=
  inferInstanceAs (Decidable (∀ _ ∈ _, _))

instance (s : State) (i : ℕ) : Decidable (s.InFlight i) :=
  inferInstanceAs (Decidable (¬ s.awaits i = none))

/-- The `connectWithSetup` that created the channel is in progress. -/
def SettingUp (s : State) (channel : Channel) : Prop :=
  ∃ e ∈ s.log, creates e.2 = some channel ∧ s.InFlight e.1

instance (s : State) (channel : Channel) : Decidable (SettingUp s channel) :=
  inferInstanceAs (Decidable (∃ e ∈ s.log, _ ∧ _))

/-- What a step hands to a channel, and a health check that it answers with true, are on a channel
that all four steps have completed on. -/
structure BehindTopology (s : State) (l : Label) (s' : State) : Prop where
  publish : ∀ p ∈ s'.world.published.drop s.world.published.length, Configured s p.1
  healthy : (s'.tasks l.task).bind (fun task => task.prog.outcome?) =
      some (.ok (.healthy true)) →
    ∃ channel, s.world.this.channel = some channel ∧ Configured s channel

/-- Nobody publishes or asks for the health while the held channel is being set up. -/
def Waits (s : State) : Label → Prop
  | .start _ (.publish _ _) => ∀ channel ∈ s.world.this.channel, ¬ SettingUp s channel
  | .start _ .health => ∀ channel ∈ s.world.this.channel, ¬ SettingUp s channel
  | _ => True

/-! ## How far an attempt is -/

def TopologyStep.earlier : TopologyStep → List TopologyStep
  | exchange => []
  | deadLetterQueue => [exchange]
  | workQueue => [exchange, deadLetterQueue]
  | binding => [exchange, deadLetterQueue, workQueue]

theorem earlier_next {step step' : TopologyStep} (h : step.next = some step') :
    step'.earlier = step.earlier ++ [step] := by
  cases step <;> cases h <;> rfl

theorem all_of_last {step : TopologyStep} (h : step.next = none) :
    TopologyStep.all = step.earlier ++ [step] := by
  cases step <;> first | rfl | cases h

/-- The attempt that created the channel is here, and the channel is still held. -/
def Stage.SetsUp (log : Log) (channel : Channel) : Stage → Prop
  | connected own => own = channel
  | declaring own step on =>
    own = channel ∧ on = channel ∧ ∀ step' ∈ step.earlier, Declared log channel step'
  | failing _ _ => True
  | _ => False

section Steps

variable {st st' : Stage} {ok : Bool} {w w' : World} {a : Answered Api} {t : Trigger} {log : Log}
  {channel : Channel} {step : TopologyStep} {i : ℕ}

theorem Declared.append (h : Declared log channel step) (new : Log) :
    Declared (log ++ new) channel step := by
  obtain ⟨e, he, hstep⟩ := h
  exact ⟨e, List.mem_append_left _ he, hstep⟩

theorem declared_now (i : ℕ) (log : Log) (channel : Channel) (step : TopologyStep) :
    Declared (log ++ [(i, ⟨.declare channel step.declaration, .ok ()⟩)]) channel step :=
  ⟨_, List.mem_append_right _ (List.mem_singleton_self _), rfl⟩

theorem Stage.SetsUp.append (h : st.SetsUp log channel) (new : Log) :
    st.SetsUp (log ++ new) channel := by
  cases st with
  | declaring own step on =>
    obtain ⟨hown, hon, hearlier⟩ := h
    exact ⟨hown, hon, fun step' hs => (hearlier step' hs).append new⟩
  | _ => exact h

theorem setsUp_declareNext (hch : w.this.channel = some channel)
    (hearlier : ∀ step' ∈ step.earlier, Declared log channel step') :
    (w.declareNext channel step).SetsUp log channel := by
  unfold World.declareNext
  rw [hch]
  exact ⟨rfl, rfl, hearlier⟩

/-- An attempt whose channel stays held gets on with the topology, or it fails. -/
theorem setsUp_next (h : st.next ok w = some (a, st', w')) (hch : w.this.channel = some channel)
    (hch' : w'.this.channel = some channel) (hst : st.SetsUp log channel) :
    (∀ step ∈ TopologyStep.all, Declared (log ++ [(i, a)]) channel step) ∨
      st'.SetsUp (log ++ [(i, a)]) channel := by
  cases st with
  | connected own =>
    have hown : own = channel := hst
    subst hown
    cases h
    right
    simp only [hch, Option.isNone_some]
    exact setsUp_declareNext hch (by simp [TopologyStep.earlier])
  | declaring own step on =>
    obtain ⟨hown, hon, hearlier⟩ := hst
    subst hown hon
    cases ok
    · cases h
      exact .inr trivial
    · cases h
      have hdone : ∀ step' ∈ step.earlier ++ [step], Declared (log ++
          [(i, ⟨.declare on step.declaration, .ok ()⟩)]) on step' := by
        intro step' hs
        obtain hs | hs := List.mem_append.mp hs
        · exact (hearlier step' hs).append _
        · rw [List.mem_singleton.mp hs]
          exact declared_now i log on step
      cases hnext : step.next with
      | none =>
        left
        rwa [all_of_last hnext]
      | some step' =>
        right
        rw [← earlier_next hnext] at hdone
        exact setsUp_declareNext hch hdone
  | failing part e =>
    cases h
    cases hch'
  | _ => cases hst

theorem channel_next (hm : Moves st ok w st' w') (hch' : w'.this.channel = some channel) :
    w.this.channel = some channel ∨ ∃ c, st = .opening c ∧ ok = true := by
  cases hm with
  | obtain => exact .inl hch'
  | @openChannel c => exact .inr ⟨c, rfl, rfl⟩
  | takeDown => cases hch'
  | close => exact .inl hch'
  | destroyChannel => exact .inl hch'
  | destroyed => cases hch'
  | quiet _ _ hw => exact .inl (hw.channel ▸ hch')

theorem channel_begin (ho : Opens w t st w') (hch' : w'.this.channel = some channel) :
    w.this.channel = some channel := by
  cases ho with
  | takeDown c _ => cases hch'
  | destroy => exact hch'
  | quiet _ hw => exact hw.channel ▸ hch'

theorem setsUp_created (h : st.next ok w = some (a, st', w'))
    (hch' : w'.this.channel = some channel) :
    w.this.channel = some channel ∨ creates a = some channel ∧ st'.SetsUp log channel := by
  obtain hold | ⟨c, rfl, rfl⟩ := channel_next (moves_next h) hch'
  · exact .inl hold
  · cases h
    cases hch'
    refine .inr ⟨rfl, ?_⟩
    split
    · rfl
    · trivial

theorem published_begin (h : Stage.begin t w = some (st, w')) :
    w'.published = w.published ∨ ∃ event full channel, t = .publish event full ∧
      w.this.channel = some channel ∧ w'.published = w.published ++ [(channel, event)] := by
  cases begin_cases h with
  | publish event full channel hch outcome => exact .inr ⟨event, full, channel, rfl, hch, rfl⟩
  | _ => exact .inl rfl

theorem published_next (h : st.next ok w = some (a, st', w')) : w'.published = w.published := by
  obtain hsame | rfl := timers_next h
  · exact hsame.published
  · unfold World.schedule
    split <;> rfl

end Steps

/-! ## The invariant -/

/-- The held channel is configured, or the attempt that created it is on the way. -/
def SetupInv (σ : StagedState) : Prop :=
  ∀ channel, σ.world.this.channel = some channel →
    (∀ step ∈ TopologyStep.all, Declared σ.log channel step) ∨
      ∃ i t st, σ.stages i = some (t, st) ∧ (∃ e ∈ σ.log, e.1 = i ∧ creates e.2 = some channel) ∧
        st.SetsUp σ.log channel

theorem setupInv_step {l : Label} {σ σ' : StagedState} (hσ : SetupInv σ)
    (h : queueStages.step l σ = some σ') : SetupInv σ' := by
  intro channel hch
  obtain ⟨i, t, st, w, -, hi, hb, rfl⟩ | ⟨i, ok, t, st, a, st', w, -, hi, hn, rfl⟩ :=
    Staging.staged_cases h
  · obtain hdone | ⟨j, t', st', hj, hcreated, hst⟩ := hσ channel (channel_begin (opens_begin hb) hch)
    · exact .inl hdone
    · have hne : j ≠ i := by
        rintro rfl
        rw [hi] at hj
        cases hj
      exact .inr ⟨j, t', st', (Function.update_of_ne hne ..).trans hj, hcreated, hst⟩
  · obtain hold | ⟨hcreates, hsets⟩ := setsUp_created hn hch
    · obtain hdone | ⟨j, t', st₁, hj, ⟨e, he, hej, hcreated⟩, hst⟩ := hσ channel hold
      · exact .inl fun step hs => (hdone step hs).append _
      · have hlog := List.mem_append_left [(i, a)] he
        by_cases hji : j = i
        · subst hji
          rw [hi] at hj
          cases hj
          obtain hdone | hsets := setsUp_next (i := j) hn hold hch hst
          · exact .inl hdone
          · exact .inr ⟨j, t, st', Function.update_self .., ⟨e, hlog, hej, hcreated⟩, hsets⟩
        · exact .inr ⟨j, t', st₁, (Function.update_of_ne hji ..).trans hj,
            ⟨e, hlog, hej, hcreated⟩, hst.append _⟩
    · exact .inr ⟨i, t, st', Function.update_self ..,
        ⟨_, List.mem_append_right _ (List.mem_singleton_self _), rfl, hcreates⟩, hsets⟩

/-- The held channel is configured, when no attempt is setting it up. -/
theorem configured_of_run {config : QueueConfig} {random : ℕ → ℚ} {ls : List Label} {s : State}
    {channel : Channel} (hrun : queueLoop.run ls (State.initial config random) = some s)
    (hch : s.world.this.channel = some channel) (hover : ¬ SettingUp s channel) :
    Configured s channel := by
  obtain ⟨σ, hσrun, rfl⟩ := run_stages hrun
  have hinit : SetupInv (StagedState.initial config random) := by
    intro channel hch
    cases hch
  have hσ := Runs.run_induction SetupInv setupInv_step hinit hσrun
  obtain hdone | ⟨i, t, st, hi, ⟨e, he, rfl, hcreated⟩, hst⟩ := hσ channel hch
  · exact hdone
  · have hkind : st.kind ≠ none := by
      cases st with
      | ended outcome => cases hst
      | _ => simp [Stage.kind]
    exact absurd ⟨e, he, hcreated, (inFlight_state hi).mpr hkind⟩ hover

theorem outcome_of_healthy {st : Stage} (h : st.prog.outcome? = some (.ok (.healthy true))) :
    st = .ended (.ok (.healthy true)) := by
  cases st with
  | ended outcome =>
    cases outcome with
    | ok r =>
      cases h
      rfl
    | error e => cases h
  | closingChannel closer channel connection => cases closer <;> cases channel <;> cases h
  | closingConnection closer connection => cases closer <;> cases connection <;> cases h
  | closed closer => cases closer <;> cases h
  | destroyingChannel channel => cases channel <;> cases h
  | destroyingConnection connection => cases connection <;> cases h
  | declaring own step on => cases step <;> cases h
  | _ => cases h

/-- A health check that answers with true has seen a channel; so has whoever publishes. -/
theorem held_of_healthy {t : Trigger} {w w' : World}
    (h : Stage.begin t w = some (.ended (.ok (.healthy true)), w')) :
    ∃ channel, w.this.channel = some channel ∧
      (t = .health ∨ ∃ event full, t = .publish event full) := by
  generalize hst : Stage.ended (.ok (.healthy true)) = st at h
  cases begin_cases h with
  | publish event full channel hch _ => exact ⟨channel, hch, .inr ⟨event, full, rfl⟩⟩
  | health =>
    simp only [Stage.ended.injEq, Except.ok.injEq, Result.healthy.injEq] at hst
    obtain ⟨channel, hch⟩ : ∃ channel, w.this.channel = some channel := by
      rw [← Option.isSome_iff_exists]
      exact (Bool.and_eq_true_iff.mp hst.symm).2
    exact ⟨channel, hch, .inl rfl⟩
  | init _ =>
    have hkind := attempt_kind w
    rw [← hst] at hkind
    cases hkind
  | timer t _ =>
    have hkind := attempt_kind w
    rw [← hst] at hkind
    cases hkind
  | _ => cases hst

theorem state_outcome_update {stages : ℕ → Option (Trigger × Stage)} {i : ℕ} {t : Trigger}
    {st : Stage} {w : World} {log : Log} :
    ((queueStages.state ⟨w, Function.update stages i (some (t, st)), log⟩).tasks i).bind
      (fun task => task.prog.outcome?) = st.prog.outcome? := by
  simp [Staging.state, queueStages]

/-- Publications and health checks that wait find the topology configured. -/
theorem published_behind_topology {config : QueueConfig} {random : ℕ → ℚ} {ls : List Label}
    {s s' : State} {l : Label} (hrun : queueLoop.run ls (State.initial config random) = some s)
    (hcond : Waits s l) (hstep : queueLoop.step l s = some s') : BehindTopology s l s' := by
  have hconfigured : ∀ channel, s.world.this.channel = some channel → ¬ SettingUp s channel →
      Configured s channel := fun channel hch => configured_of_run hrun hch
  obtain ⟨σ, hσrun, rfl⟩ := run_stages hrun
  rw [Staging.step_staged, Option.map_eq_some_iff] at hstep
  obtain ⟨σ', hσ', rfl⟩ := hstep
  obtain ⟨i, t, st, w, rfl, -, hb, rfl⟩ | ⟨i, ok, t, st, a, st', w, rfl, -, hn, rfl⟩ :=
    Staging.staged_cases hσ'
  · have hchannel : ∀ channel, σ.world.this.channel = some channel →
        (t = .health ∨ ∃ event full, t = .publish event full) →
        Configured (queueStages.state σ) channel := by
      rintro channel hch (rfl | ⟨event, full, rfl⟩)
      · exact hconfigured channel hch (hcond channel hch)
      · exact hconfigured channel hch (hcond channel hch)
    constructor
    · intro p hp
      have hnew : p ∈ w.published.drop σ.world.published.length := hp
      obtain hsame | ⟨event, full, channel, ht, hch, hadd⟩ := published_begin hb
      · simp [hsame] at hnew
      · rw [hadd, List.drop_left, List.mem_singleton] at hnew
        rw [hnew]
        exact hchannel channel hch (.inr ⟨event, full, ht⟩)
    · intro hout
      obtain rfl := outcome_of_healthy (state_outcome_update.symm.trans hout)
      obtain ⟨channel, hch, ht⟩ := held_of_healthy hb
      exact ⟨channel, hch, hchannel channel hch ht⟩
  · constructor
    · intro p hp
      have hnew : p ∈ w.published.drop σ.world.published.length := hp
      simp [published_next hn] at hnew
    · intro hout
      obtain rfl := outcome_of_healthy (state_outcome_update.symm.trans hout)
      obtain hover | ⟨hkind, hsame⟩ := kind_next hn
      · cases hover
      · exact absurd hsame.symm hkind

def publishLater : List Label := initialise 0 ++ [.start 1 .health]

theorem published_behind_topology_later :
    ∃ s s', queueLoop.run publishLater (State.initial localBroker fun _ => 0) = some s ∧
      queueLoop.step (.start 2 (.publish cleosUpload false)) s = some s' ∧
      s'.world.published.length = 1 ∧
      BehindTopology s (.start 2 (.publish cleosUpload false)) s' := by
  have h : (queueLoop.run publishLater (State.initial localBroker fun _ => 0)).map (fun s =>
      (s.world.this.channel, decide (SettingUp s ⟨0, (0 : ℕ)⟩),
        (queueLoop.step (.start 2 (.publish cleosUpload false)) s).map
          fun s' => s'.world.published.length)) =
      some (some ⟨0, (0 : ℕ)⟩, false, some 1) := by decide +kernel
  obtain ⟨s, hrun, hs⟩ := Option.map_eq_some_iff.mp h
  simp only [Prod.mk.injEq, decide_eq_false_iff_not] at hs
  obtain ⟨hch, hover, hstep⟩ := hs
  obtain ⟨s', hstep, hlength⟩ := Option.map_eq_some_iff.mp hstep
  refine ⟨s, s', hrun, hstep, hlength, published_behind_topology hrun ?_ hstep⟩
  intro channel hchannel
  rw [Option.mem_def, hch] at hchannel
  cases hchannel
  exact hover

/-- The channel has been created, and its topology has not been asserted. -/
def channelOnly : List Label := .start 0 .init :: List.replicate 2 (.resume 0 true)

/-- A message handed over then is taken, and a health check answered with true. -/
theorem published_too_early :
    ∃ s s₁ s₂, queueLoop.run channelOnly (State.initial localBroker fun _ => 0) = some s ∧
      queueLoop.step (.start 1 (.publish cleosUpload false)) s = some s₁ ∧
      queueLoop.step (.start 2 .health) s = some s₂ ∧
      ¬ BehindTopology s (.start 1 (.publish cleosUpload false)) s₁ ∧
      ¬ BehindTopology s (.start 2 .health) s₂ := by
  have h : (queueLoop.run channelOnly (State.initial localBroker fun _ => 0)).map (fun s =>
      (s.world.this.channel, s.world.published.length,
        decide (Configured s ⟨0, (0 : ℕ)⟩))) = some (some ⟨0, (0 : ℕ)⟩, 0, false) := by
    decide +kernel
  have hpublish : (queueLoop.run channelOnly (State.initial localBroker fun _ => 0)).bind (fun s =>
      (queueLoop.step (.start 1 (.publish cleosUpload false)) s).map
        fun s₁ => s₁.world.published) = some [(⟨0, (0 : ℕ)⟩, cleosUpload)] := by
    decide +kernel
  have hhealth : (queueLoop.run channelOnly (State.initial localBroker fun _ => 0)).bind (fun s =>
      (queueLoop.step (.start 2 .health) s).map fun s₂ =>
        ((s₂.tasks 2).bind fun task => task.prog.outcome?).bind Except.toOption) =
      some (some (.healthy true)) := by
    decide +kernel
  obtain ⟨s, hrun, hs⟩ := Option.map_eq_some_iff.mp h
  simp only [Prod.mk.injEq, decide_eq_false_iff_not] at hs
  obtain ⟨hch, hnone, hnot⟩ := hs
  rw [hrun, Option.bind_some, Option.map_eq_some_iff] at hpublish hhealth
  obtain ⟨s₁, hstep₁, hpublished⟩ := hpublish
  obtain ⟨s₂, hstep₂, hhealthy⟩ := hhealth
  refine ⟨s, s₁, s₂, hrun, hstep₁, hstep₂, fun hbehind => ?_, fun hbehind => ?_⟩
  · exact hnot (hbehind.publish (⟨0, (0 : ℕ)⟩, cleosUpload) (by simp [hnone, hpublished]))
  · have hout : ((s₂.tasks 2).bind fun task => task.prog.outcome?) = some (.ok (.healthy true)) := by
      obtain ⟨o, ho, hok⟩ := Option.bind_eq_some_iff.mp hhealthy
      rw [ho]
      cases o with
      | ok r => cases hok; rfl
      | error e => cases hok
    obtain ⟨channel, hchannel, hconf⟩ := hbehind.healthy hout
    rw [hch] at hchannel
    cases hchannel
    exact hnot hconf

end TalentFlow.Queue
