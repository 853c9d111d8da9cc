import TalentFlow.Gateway.Requests

/-!
# Gateway.Steps

Everything one call can do, kind by kind, and what it leaves alone. Later modules take a step apart
with these lemmas and never unfold `gateway`.

* `prisma_cases`, `redis_cases`, …: the answer and the new world of each kind of call.
* `exec_frame`: what a call leaves alone; the UUIDs it draws are fresh.
* `move_cases`, `db_of_move`: the moves of the world.
-/

namespace TalentFlow

open Data Async

variable {i : ℕ} {ch : Choice} {w w' : World}

theorem exec_cases {c : Call} {r : Api.Answer c} (h : gateway.exec i c ch w = some (r, w')) :
    (∃ e, c.failure = some e ∧ r = .error e ∧ w' = w) ∨
      (ch.fails = false ∧ c.exec i ch w = some (r, w')) := by
  simp only [gateway] at h
  cases hf : ch.fails with
  | false =>
    rw [hf] at h
    exact .inr ⟨rfl, h⟩
  | true =>
    cases hc : c.failure with
    | none =>
      rw [hf, hc] at h
      cases h
    | some e =>
      rw [hf, hc] at h
      cases h
      exact .inl ⟨e, rfl, rfl, rfl⟩

theorem exec_of_ok (c : Call) (h : ch.fails = false) : gateway.exec i c ch w = c.exec i ch w := by
  simp only [gateway, h]

theorem prisma_cases {c : PrismaCall} {r : Api.Answer (.prisma c)}
    (h : gateway.exec i (.prisma c) ch w = some (r, w')) :
    (∃ e, r = .error (.prisma e) ∧ w' = w) ∨
      ∃ v db, ch.fails = false ∧ w.Allows ch c ∧
        c.perform w.now ch.uuid ch.rows w.db = (.ok v, db) ∧ r = .ok v ∧
        w' = { w with
          db := db, drawn := if c.drawsId then w.drawn ++ [(i, ch.uuid)] else w.drawn } := by
  obtain ⟨e, he, rfl, rfl⟩ | ⟨hok, h⟩ := exec_cases h
  · cases he
    exact .inl ⟨_, rfl, rfl⟩
  · simp only [Call.exec, PrismaCall.exec] at h
    split at h
    · rename_i hallow
      rcases hp : c.perform w.now ch.uuid ch.rows w.db with ⟨v | v, db⟩
      · rw [hp] at h
        cases h
        exact .inl ⟨_, rfl, rfl⟩
      · rw [hp] at h
        cases h
        exact .inr ⟨v, db, hok, hallow, rfl, rfl, rfl⟩
    · cases h

theorem prisma_of_ok {c : PrismaCall} {r : Api.Answer (.prisma c)} (hok : ch.fails = false)
    (h : gateway.exec i (.prisma c) ch w = some (r, w')) :
    w.Allows ch c ∧ ∀ v db, c.perform w.now ch.uuid ch.rows w.db = (.ok v, db) → r = .ok v ∧
      w' = { w with
        db := db, drawn := if c.drawsId then w.drawn ++ [(i, ch.uuid)] else w.drawn } := by
  rw [exec_of_ok _ hok] at h
  simp only [Call.exec, PrismaCall.exec] at h
  split at h
  · rename_i hallow
    refine ⟨hallow, fun v db hperf => ?_⟩
    rw [hperf] at h
    cases h
    exact ⟨rfl, rfl⟩
  · cases h

theorem read_cases {c : PrismaCall} {r : Api.Answer (.prisma c)} (hc : c.IsRead)
    (h : gateway.exec i (.prisma c) ch w = some (r, w')) :
    w' = w ∧ ((∃ e, r = .error e) ∨
      ∃ v, r = .ok v ∧ c.perform w.now ch.uuid ch.rows w.db = (.ok v, w.db)) := by
  obtain ⟨e, rfl, rfl⟩ | ⟨v, db, -, -, hperf, rfl, rfl⟩ := prisma_cases h
  · exact ⟨rfl, .inl ⟨_, rfl⟩⟩
  · have hdb : db = w.db := (congrArg Prod.snd hperf).symm.trans (PrismaCall.perform_read hc)
    subst hdb
    have hid : c.drawsId = false := by cases c <;> first | rfl | exact hc.elim
    exact ⟨by simp [hid], .inr ⟨v, rfl, hperf⟩⟩

theorem redis_cases {c : RedisCall} {r : Api.Answer (.redis c)}
    (h : gateway.exec i (.redis c) ch w = some (r, w')) :
    (r = .error .redis ∧ w' = w) ∨
      (r = .ok (c.perform w.now w.redis).1 ∧
        w' = { w with redis := (c.perform w.now w.redis).2 }) := by
  obtain ⟨e, he, rfl, rfl⟩ | ⟨-, h⟩ := exec_cases h
  · cases he
    exact .inl ⟨rfl, rfl⟩
  · cases h
    exact .inr ⟨rfl, rfl⟩

theorem storage_cases {c : StorageCall} {r : Api.Answer (.storage c)}
    (h : gateway.exec i (.storage c) ch w = some (r, w')) :
    (r = .error .storage ∧ w' = w) ∨
      (r = .ok (c.perform ch.text w.storage).1 ∧
        w' = { w with storage := (c.perform ch.text w.storage).2 }) := by
  obtain ⟨e, he, rfl, rfl⟩ | ⟨-, h⟩ := exec_cases h
  · cases c <;> cases he <;> exact .inl ⟨rfl, rfl⟩
  · cases h
    exact .inr ⟨rfl, rfl⟩

theorem publish_cases {event : CvUploadedEvent} {r : Api.Answer (.publish event)}
    (h : gateway.exec i (.publish event) ch w = some (r, w')) :
    (r = .error .amqp ∧ w' = w) ∨ (w.channel = none ∧ r = .ok none ∧ w' = w) ∨
      ∃ chan, w.channel = some chan ∧ r = .ok (some (!chan.full)) ∧
        w' = { w with channel := some { chan with queued := chan.queued ++ [event] } } := by
  obtain ⟨e, he, rfl, rfl⟩ | ⟨-, h⟩ := exec_cases h
  · cases he
    exact .inl ⟨rfl, rfl⟩
  · simp only [Call.exec] at h
    cases hc : w.channel with
    | none =>
      rw [hc] at h
      cases h
      exact .inr (.inl ⟨rfl, rfl, rfl⟩)
    | some chan =>
      rw [hc] at h
      cases h
      exact .inr (.inr ⟨chan, rfl, rfl, rfl⟩)

theorem randomUUID_cases {r : Api.Answer .randomUUID}
    (h : gateway.exec i .randomUUID ch w = some (r, w')) :
    ∃ u, w.Fresh u ∧ r = .ok u ∧ w' = { w with drawn := w.drawn ++ [(i, u)] } := by
  obtain ⟨e, he, -⟩ | ⟨-, h⟩ := exec_cases h
  · cases he
  · simp only [Call.exec] at h
    split at h
    · rename_i hu
      cases h
      exact ⟨ch.uuid, hu, rfl, rfl⟩
    · cases h

theorem dateNow_cases {r : Api.Answer .dateNow} (h : gateway.exec i .dateNow ch w = some (r, w')) :
    r = .ok w.now ∧ w' = w := by
  obtain ⟨e, he, -⟩ | ⟨-, h⟩ := exec_cases h
  · cases he
  · cases h
    exact ⟨rfl, rfl⟩

theorem bcryptHash_cases {plain : String} {r : Api.Answer (.bcryptHash plain)}
    (h : gateway.exec i (.bcryptHash plain) ch w = some (r, w')) :
    ∃ hashed, w.bcrypt plain hashed = true ∧ r = .ok hashed ∧ w' = w := by
  obtain ⟨e, he, -⟩ | ⟨-, h⟩ := exec_cases h
  · cases he
  · simp only [Call.exec] at h
    split at h
    · rename_i hb
      cases h
      exact ⟨ch.text, hb, rfl, rfl⟩
    · cases h

theorem bcryptCompare_cases {plain hashed : String} {r : Api.Answer (.bcryptCompare plain hashed)}
    (h : gateway.exec i (.bcryptCompare plain hashed) ch w = some (r, w')) :
    r = .ok (w.bcrypt plain hashed) ∧ w' = w := by
  obtain ⟨e, he, -⟩ | ⟨-, h⟩ := exec_cases h
  · cases he
  · cases h
    exact ⟨rfl, rfl⟩

theorem audit_cases {event : SecurityEvent} {r : Api.Answer (.audit event)}
    (h : gateway.exec i (.audit event) ch w = some (r, w')) :
    r = .ok () ∧ w' = { w with audit := w.audit ++ [event] } := by
  obtain ⟨e, he, -⟩ | ⟨-, h⟩ := exec_cases h
  · cases he
  · cases h
    exact ⟨rfl, rfl⟩

/-! ## Frames -/

structure Frame (i : ℕ) (c : Call) (w w' : World) : Prop where
  now : w'.now = w.now
  bcrypt : w'.bcrypt = w.bcrypt
  broker : w'.broker = w.broker
  db : (∀ c', c ≠ .prisma c') → w'.db = w.db
  redis : (∀ c', c ≠ .redis c') → w'.redis = w.redis
  storage : (∀ c', c ≠ .storage c') → w'.storage = w.storage
  channel : (∀ event, c ≠ .publish event) → w'.channel = w.channel
  drawn : w'.drawn = w.drawn ∨ ∃ u, w.Fresh u ∧ w'.drawn = w.drawn ++ [(i, u)]

theorem Frame.refl (i : ℕ) (c : Call) (w : World) : Frame i c w w where
  now := rfl
  bcrypt := rfl
  broker := rfl
  db _ := rfl
  redis _ := rfl
  storage _ := rfl
  channel _ := rfl
  drawn := .inl rfl

theorem exec_frame {c : Call} {r : Api.Answer c} (h : gateway.exec i c ch w = some (r, w')) :
    Frame i c w w' := by
  cases c with
  | prisma c =>
    obtain ⟨e, -, rfl⟩ | ⟨v, db, -, hallow, -, -, rfl⟩ := prisma_cases h
    · exact .refl i _ w'
    · refine ⟨rfl, rfl, rfl, fun hc => absurd rfl (hc c), fun _ => rfl, fun _ => rfl,
        fun _ => rfl, ?_⟩
      cases hd : c.drawsId with
      | false => exact .inl rfl
      | true =>
        exact .inr ⟨ch.uuid, hallow.1 hd, rfl⟩
  | redis c =>
    obtain ⟨-, rfl⟩ | ⟨-, rfl⟩ := redis_cases h
    · exact .refl i _ w'
    · exact { Frame.refl i (.redis c) w with redis := fun hc => absurd rfl (hc c) }
  | storage c =>
    obtain ⟨-, rfl⟩ | ⟨-, rfl⟩ := storage_cases h
    · exact .refl i _ w'
    · exact { Frame.refl i (.storage c) w with storage := fun hc => absurd rfl (hc c) }
  | publish event =>
    obtain ⟨-, rfl⟩ | ⟨-, -, rfl⟩ | ⟨chan, -, -, rfl⟩ := publish_cases h
    · exact .refl i _ w'
    · exact .refl i _ w'
    · exact { Frame.refl i (.publish event) w with channel := fun hc => absurd rfl (hc event) }
  | randomUUID =>
    obtain ⟨u, hu, -, rfl⟩ := randomUUID_cases h
    exact { Frame.refl i .randomUUID w with drawn := .inr ⟨u, hu, rfl⟩ }
  | dateNow =>
    obtain ⟨-, rfl⟩ := dateNow_cases h
    exact .refl i _ w'
  | bcryptHash plain =>
    obtain ⟨-, -, -, rfl⟩ := bcryptHash_cases h
    exact .refl i _ w'
  | bcryptCompare plain hashed =>
    obtain ⟨-, rfl⟩ := bcryptCompare_cases h
    exact .refl i _ w'
  | audit event =>
    obtain ⟨-, rfl⟩ := audit_cases h
    exact { Frame.refl i (.audit event) w with }

theorem move_cases {mv : Move} (h : gateway.move mv w = some w') :
    (∃ elapsed, mv = .tick elapsed ∧ w' = { w with now := w.now + elapsed }) ∨
      ∃ channel broker, w' = { w with channel := channel, broker := broker } := by
  cases mv with
  | tick elapsed =>
    cases h
    exact .inl ⟨elapsed, rfl, rfl⟩
  | send =>
    right
    simp only [gateway, World.move] at h
    cases hc : w.channel with
    | none =>
      rw [hc] at h
      cases h
    | some chan =>
      rw [hc] at h
      obtain ⟨full, queued⟩ := chan
      cases queued with
      | nil => cases h
      | cons m ms =>
        cases h
        exact ⟨_, _, rfl⟩
  | setFull full =>
    right
    simp only [gateway, World.move] at h
    obtain ⟨chan, -, rfl⟩ := Option.map_eq_some_iff.mp h
    exact ⟨_, _, rfl⟩
  | channelLost =>
    cases h
    exact .inr ⟨_, _, rfl⟩
  | channelOpened =>
    cases h
    exact .inr ⟨_, _, rfl⟩

theorem db_of_move {mv : Move} (h : gateway.move mv w = some w') : w'.db = w.db := by
  obtain ⟨elapsed, -, rfl⟩ | ⟨channel, broker, rfl⟩ := move_cases h
  · rfl
  · rfl

end TalentFlow
