import TalentFlow.Gateway.WellFormed
import TalentFlow.Async.Sequential
import Mathlib.Data.Set.Finite.Basic

/-!
# Gateway.Alone

Requests that run one after another, without failing calls: `alone i` is how the calls of request
`i` are then answered.

* `finishes_redis`, `finishes_query`, …: what each kind of call answers and leaves.
* `request_answered`: every request but a signup comes to an end in every world. (A signup needs a
  text that `bcrypt` takes for the hash of the password.)
-/

namespace TalentFlow

open Data Async

/-- The answers to the calls of request `i` when none fails. -/
abbrev alone (i : ℕ) : Answering Api World := gateway.answers (fun ch => ch.fails = false) i

section Calls

variable {i : ℕ} {w w' : World}

theorem alone_iff {c : Call} {a : Api.Answer c} :
    alone i c w a w' ↔ ∃ ch, ch.fails = false ∧ c.exec i ch w = some (a, w') := by
  constructor
  · rintro ⟨ch, hok, h⟩
    exact ⟨ch, hok, by rwa [exec_of_ok c hok] at h⟩
  · rintro ⟨ch, hok, h⟩
    exact ⟨ch, hok, by rwa [exec_of_ok c hok]⟩

theorem alone_of_exec {c : Call} {a : Api.Answer c} {v : c.Value} {w₁ : World}
    (h : ∀ ch, c.exec i ch w = some (.ok v, w₁)) : alone i c w a w' ↔ a = .ok v ∧ w' = w₁ := by
  rw [alone_iff]
  constructor
  · rintro ⟨ch, -, hx⟩
    rw [h] at hx
    cases hx
    exact ⟨rfl, rfl⟩
  · rintro ⟨rfl, rfl⟩
    exact ⟨{}, rfl, h _⟩

theorem finishes_dateNow (o : Except Exception Time) (w' : World) :
    Finishes (alone i) dateNow w o w' ↔ o = .ok w.now ∧ w' = w :=
  finishes_await.trans (alone_of_exec fun _ => rfl)

theorem finishes_audit (event : SecurityEvent) (o : Except Exception Unit) (w' : World) :
    Finishes (alone i) (audit event) w o w' ↔
      o = .ok () ∧ w' = { w with audit := w.audit ++ [event] } :=
  finishes_await.trans (alone_of_exec fun _ => rfl)

theorem finishes_redis (c : RedisCall) (o : Except Exception c.Value) (w' : World) :
    Finishes (alone i) (redis c) w o w' ↔
      o = .ok (c.perform w.now w.redis).1 ∧ w' = { w with redis := (c.perform w.now w.redis).2 } :=
  finishes_await.trans (alone_of_exec fun _ => rfl)

theorem finishes_bcryptCompare (plain hashed : String) (o : Except Exception Bool) (w' : World) :
    Finishes (alone i) (bcryptCompare plain hashed) w o w' ↔
      o = .ok (w.bcrypt plain hashed) ∧ w' = w :=
  finishes_await.trans (alone_of_exec fun _ => rfl)

theorem finishes_randomUUID (o : Except Exception String) (w' : World) :
    Finishes (alone i) randomUUID w o w' ↔
      ∃ u, w.Fresh u ∧ o = .ok u ∧ w' = { w with drawn := w.drawn ++ [(i, u)] } := by
  rw [randomUUID, finishes_await, alone_iff]
  constructor
  · rintro ⟨ch, hok, hx⟩
    exact randomUUID_cases ((exec_of_ok .randomUUID hok).trans hx)
  · rintro ⟨u, hu, rfl, rfl⟩
    exact ⟨{ uuid := u }, rfl, if_pos hu⟩

theorem finishes_read {c : PrismaCall} (hc : c.IsRead) {o : Except Exception c.Value} :
    Finishes (alone i) (prisma c) w o w' ↔ w' = w ∧ ∃ ch, w.Allows ch c ∧
      o = (c.perform w.now ch.uuid ch.rows w.db).1.mapError Exception.prisma := by
  have hdrawn : c.drawsId = false := by cases c <;> first | rfl | exact hc.elim
  have hexec : ∀ ch : Choice, w.Allows ch c → (Call.prisma c).exec i ch w =
      some ((c.perform w.now ch.uuid ch.rows w.db).1.mapError Exception.prisma, w) := by
    intro ch hallow
    have hread : (c.perform w.now ch.uuid ch.rows w.db).2 = w.db := PrismaCall.perform_read hc
    rcases hp : c.perform w.now ch.uuid ch.rows w.db with ⟨e | v, db⟩
    · simp only [Call.exec, PrismaCall.exec, if_pos hallow, hp]
      rfl
    · rw [hp] at hread
      obtain rfl : db = w.db := hread
      simp only [Call.exec, PrismaCall.exec, if_pos hallow, hp, hdrawn]
      rfl
  rw [prisma, finishes_await, alone_iff]
  constructor
  · rintro ⟨ch, -, hx⟩
    by_cases hallow : w.Allows ch c
    · rw [hexec ch hallow] at hx
      cases hx
      exact ⟨rfl, ch, hallow, rfl⟩
    · simp only [Call.exec, PrismaCall.exec, if_neg hallow] at hx
      cases hx
  · rintro ⟨rfl, ch, hallow, rfl⟩
    exact ⟨{ ch with fails := false }, rfl, hexec { ch with fails := false } hallow⟩

theorem finishes_query {c : PrismaCall} {v : c.Value}
    (hperform : ∀ id rows, c.perform w.now id rows w.db = (.ok v, w.db)) (hid : c.drawsId = false)
    (hsort : c.sortedQuery = none ∧ c.sortedInterviews = none) (o : Except Exception c.Value)
    (w' : World) : Finishes (alone i) (prisma c) w o w' ↔ o = .ok v ∧ w' = w := by
  refine finishes_await.trans (alone_of_exec fun ch => ?_)
  have hallow : w.Allows ch c := by
    refine ⟨fun h => ?_, fun q hq => ?_, fun q hq => ?_⟩
    · rw [hid] at h
      cases h
    · rw [hsort.1] at hq
      cases hq
    · rw [hsort.2] at hq
      cases hq
  simp only [Call.exec, PrismaCall.exec, if_pos hallow, hperform, hid]
  rfl

theorem finishes_userFindUnique (q : UserWhere) (o : Except Exception (Option User)) (w' : World) :
    Finishes (alone i) (prisma (.userFindUnique q)) w o w' ↔ o = .ok (w.db.findUser q) ∧ w' = w :=
  finishes_query (c := .userFindUnique q) (fun _ _ => rfl) rfl ⟨rfl, rfl⟩ o w'

theorem finishes_candidateFindUnique (q : CandidateWhere) (o : Except Exception (Option Candidate))
    (w' : World) : Finishes (alone i) (prisma (.candidateFindUnique q)) w o w' ↔
      o = .ok (w.db.findCandidate q) ∧ w' = w :=
  finishes_query (c := .candidateFindUnique q) (fun _ _ => rfl) rfl ⟨rfl, rfl⟩ o w'

theorem finishes_applicationFindUnique (id : String)
    (o : Except Exception (Option ApplicationWithRelations)) (w' : World) :
    Finishes (alone i) (prisma (.applicationFindUnique id)) w o w' ↔
      o = .ok ((w.db.applications.find? id).bind w.db.withRelations) ∧ w' = w :=
  finishes_query (c := .applicationFindUnique id) (fun _ _ => rfl) rfl ⟨rfl, rfl⟩ o w'

theorem finishes_applicationFindLive (id : String) (o : Except Exception (Option Application))
    (w' : World) : Finishes (alone i) (prisma (.applicationFindLive id)) w o w' ↔
      o = .ok ((w.db.applications.find? id).filter fun a => decide (a.deletedAt = none)) ∧
        w' = w :=
  finishes_query (c := .applicationFindLive id) (fun _ _ => rfl) rfl ⟨rfl, rfl⟩ o w'

theorem finishes_interviewFindUnique (id : String)
    (o : Except Exception (Option InterviewDetail)) (w' : World) :
    Finishes (alone i) (prisma (.interviewFindUnique id)) w o w' ↔
      o = .ok ((w.db.interviews.find? id).bind w.db.interviewDetail) ∧ w' = w :=
  finishes_query (c := .interviewFindUnique id) (fun _ _ => rfl) rfl ⟨rfl, rfl⟩ o w'

theorem finishes_applicationCount (q : ApplicationWhere) (o : Except Exception Nat) (w' : World) :
    Finishes (alone i) (prisma (.applicationCount q)) w o w' ↔
      o = .ok (w.db.matching q).length ∧ w' = w :=
  finishes_query (c := .applicationCount q) (fun _ _ => rfl) rfl ⟨rfl, rfl⟩ o w'

theorem finishes_interviewCount (q : InterviewWhere) (o : Except Exception Nat) (w' : World) :
    Finishes (alone i) (prisma (.interviewCount q)) w o w' ↔
      o = .ok (w.db.matchingInterviews q).length ∧ w' = w :=
  finishes_query (c := .interviewCount q) (fun _ _ => rfl) rfl ⟨rfl, rfl⟩ o w'

end Calls

/-! ## Every call can be answered -/

theorem exists_fresh (w : World) : ∃ u, w.Fresh u := by
  let row (n : ℕ) : String := String.ofList (List.replicate (n + 1) 'a')
  have hrow : Function.Injective row := fun m n h => by
    have hlength := congrArg List.length (String.ofList_injective h)
    simpa using hlength
  obtain ⟨u, ⟨n, rfl⟩, hu⟩ :=
    (Set.infinite_range_of_injective hrow).exists_notMem_finset w.uuids.toFinset
  refine ⟨row n, ⟨?_, ?_⟩, fun h => hu (List.mem_toFinset.mpr h)⟩
  · intro h
    have hlist := congrArg String.toList h
    simp [row] at hlist
  · simp [isText, row]

theorem exists_answer (i : ℕ) (c : Call) (hhash : ∀ plain, c ≠ .bcryptHash plain) (w : World) :
    ∃ a w', alone i c w a w' := by
  obtain ⟨u, hu⟩ := exists_fresh w
  cases c with
  | prisma c =>
    obtain ⟨applications, happlications⟩ :
        ∃ rows, ∀ q ∈ c.sortedQuery, IsOrdering w.db q.1 q.2 rows := by
      cases c.sortedQuery with
      | none => exact ⟨[], fun q hq => by cases hq⟩
      | some q =>
        obtain ⟨rows, hrows⟩ := exists_isOrdering w.db q.1 q.2
        exact ⟨rows, by rintro q' ⟨⟩; exact hrows⟩
    obtain ⟨interviews, hinterviews⟩ :
        ∃ rows, ∀ q ∈ c.sortedInterviews, IsInterviewOrdering w.db q.1 q.2 rows := by
      cases c.sortedInterviews with
      | none => exact ⟨[], fun q hq => by cases hq⟩
      | some q =>
        obtain ⟨rows, hrows⟩ := exists_isInterviewOrdering w.db q.1 q.2
        exact ⟨rows, by rintro q' ⟨⟩; exact hrows⟩
    let rows : Rows := { applications, interviews }
    have hallow : w.Allows { uuid := u, rows := rows } c :=
      ⟨fun _ => hu, happlications, hinterviews⟩
    rcases hp : c.perform w.now u rows w.db with ⟨e | v, db⟩
    · exact ⟨_, _, alone_iff.mpr ⟨{ uuid := u, rows := rows }, rfl,
        by simp only [Call.exec, PrismaCall.exec, if_pos hallow, hp]; rfl⟩⟩
    · exact ⟨_, _, alone_iff.mpr ⟨{ uuid := u, rows := rows }, rfl,
        by simp only [Call.exec, PrismaCall.exec, if_pos hallow, hp]; rfl⟩⟩
  | publish event =>
    cases hc : w.channel with
    | none => exact ⟨.ok none, w, alone_iff.mpr ⟨{}, rfl, by simp only [Call.exec, hc]⟩⟩
    | some chan => exact ⟨_, _, alone_iff.mpr ⟨{}, rfl, by simp only [Call.exec, hc]; rfl⟩⟩
  | randomUUID => exact ⟨_, _, finishes_await.mp ((finishes_randomUUID _ _).mpr ⟨u, hu, rfl, rfl⟩)⟩
  | bcryptHash plain => exact absurd rfl (hhash plain)
  | redis c => exact ⟨_, _, alone_iff.mpr ⟨{}, rfl, rfl⟩⟩
  | storage c => exact ⟨_, _, alone_iff.mpr ⟨{}, rfl, rfl⟩⟩
  | dateNow => exact ⟨_, _, alone_iff.mpr ⟨{}, rfl, rfl⟩⟩
  | bcryptCompare plain hashed => exact ⟨_, _, alone_iff.mpr ⟨{}, rfl, rfl⟩⟩
  | audit event => exact ⟨_, _, alone_iff.mpr ⟨{}, rfl, rfl⟩⟩

theorem request_answered (i : ℕ) {r : Request}
    (hr : ∀ email password fullName role, r ≠ .signup email password fullName role) (w : World) :
    ∃ o w', Finishes (alone i) r.prog w o w' := by
  have hcalls : r.prog.Calls fun c : Call => ∀ plain, c ≠ .bcryptHash plain := by
    refine calls_mono (prog_calls r) fun c hc => ?_
    rintro plain rfl
    rcases hc with hq | hf
    · exact hq
    · cases r <;> simp [Request.footprint] at hf
      exact hr _ _ _ _ rfl
  exact exists_finish (fun c w hc => exists_answer i c hc w) hcalls w

end TalentFlow
