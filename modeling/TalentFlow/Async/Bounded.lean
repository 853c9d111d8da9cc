import TalentFlow.Async.Guarded
import TalentFlow.Async.Sequential

/-!
# Async.Bounded

Programs that come to an end after a bounded number of calls, however those are answered.
`Prog.Within n` is a recursion on the program, so it is shown of one program at a time, part by part.

* `within_bind`, `within_tryCatch`, `within_attempt`, `within_await`: the rules for programs.
* `plays_within`: what is left of a bounded program after some calls has a smaller bound.
* `run_within`: along a run a thread makes no more calls than its program's bound.
* `finish_within`: in a world that can always answer, a thread of any configuration that a run leads
  to can be run to its end, alone and within what is left of its bound.
-/

namespace Async

variable {I : Interface} {α β : Type}

/-- The program makes at most `n` calls, whatever it is answered. -/
def Prog.Within : ℕ → Prog I α → Prop
  | _, .ret _ => True
  | _, .throw _ => True
  | 0, .call _ _ => False
  | n + 1, .call _ k => ∀ r, (k r).Within n

section Rules

variable {m n : ℕ}

@[simp] theorem within_ret (n : ℕ) (a : α) : (Prog.ret a : Prog I α).Within n := by
  unfold Prog.Within
  trivial

@[simp] theorem within_throw (n : ℕ) (e : I.Error) : (Prog.throw e : Prog I α).Within n := by
  unfold Prog.Within
  trivial

@[simp] theorem within_pure (n : ℕ) (a : α) : (pure a : Prog I α).Within n := within_ret n a

@[simp] theorem within_error (n : ℕ) (e : I.Error) : (throw e : Prog I α).Within n :=
  within_throw n e

theorem within_call {c : I.Call} {k : I.Answer c → Prog I α} (h : (Prog.call c k).Within n) :
    ∃ m, n = m + 1 ∧ ∀ r, (k r).Within m := by
  cases n with
  | zero => exact h.elim
  | succ m => exact ⟨m, rfl, h⟩

theorem within_mono {p : Prog I α} (h : p.Within m) (hmn : m ≤ n) : p.Within n := by
  induction p generalizing m n with
  | ret a => exact within_ret n a
  | throw e => exact within_throw n e
  | call c k ih =>
    obtain ⟨m, rfl, hk⟩ := within_call h
    obtain ⟨n, rfl⟩ : ∃ n', n = n' + 1 := ⟨n - 1, by omega⟩
    exact fun r => ih r (hk r) (by omega)

theorem within_bind {p : Prog I α} {f : α → Prog I β} (hp : p.Within m)
    (hf : ∀ a, (f a).Within n) : (p >>= f).Within (n + m) := by
  induction p generalizing m with
  | ret a => exact within_mono (hf a) (by omega)
  | throw e => exact within_throw _ e
  | call c k ih =>
    obtain ⟨m, rfl, hk⟩ := within_call hp
    exact fun r => ih r (hk r)

theorem within_tryCatch {p : Prog I α} {f : I.Error → Prog I α} (hp : p.Within m)
    (hf : ∀ e, (f e).Within n) : (tryCatch p f).Within (n + m) := by
  induction p generalizing m with
  | ret a => exact within_ret _ a
  | throw e => exact within_mono (hf e) (by omega)
  | call c k ih =>
    obtain ⟨m, rfl, hk⟩ := within_call hp
    exact fun r => ih r (hk r)

theorem within_bind_zero {p : Prog I α} {f : α → Prog I β} (hp : p.Within n)
    (hf : ∀ a, (f a).Within 0) : (p >>= f).Within n :=
  within_mono (within_bind hp hf) (Nat.le_of_eq (Nat.zero_add n))

theorem within_tryCatch_zero {p : Prog I α} {f : I.Error → Prog I α} (hp : p.Within n)
    (hf : ∀ e, (f e).Within 0) : (tryCatch p f).Within n :=
  within_mono (within_tryCatch hp hf) (Nat.le_of_eq (Nat.zero_add n))

theorem within_attempt {p : Prog I α} (hp : p.Within n) : p.attempt.Within n := by
  induction p generalizing n with
  | ret a => exact within_ret _ _
  | throw e => exact within_ret _ _
  | call c k ih =>
    obtain ⟨n, rfl, hk⟩ := within_call hp
    exact fun r => ih r (hk r)

theorem within_await (c : I.Call) : (Prog.await c).Within 1 := by
  intro r
  cases r with
  | ok a => exact within_ret _ a
  | error e => exact within_throw _ e

end Rules

/-- What is left of a bounded program has what is left of the bound. -/
theorem plays_within {p q : Prog I α} {es : List (Event I)} (h : p.Plays es q) {n : ℕ}
    (hp : p.Within n) : es.length ≤ n ∧ q.Within (n - es.length) := by
  induction h generalizing n with
  | nil p => exact ⟨Nat.zero_le n, hp⟩
  | cons h ih =>
    obtain ⟨m, rfl, hk⟩ := within_call hp
    obtain ⟨hlength, hq⟩ := ih (hk _)
    rw [List.length_cons, Nat.succ_sub_succ]
    exact ⟨Nat.succ_le_succ hlength, hq⟩

section Machine

variable {ι World Choice Move : Type} [DecidableEq ι] {M : Machine I ι World Choice Move}
  {ls : List (Label ι Choice Move)} {w : World} {pool : ι → Prog I α} {cfg : Config I ι World α}
  {i : ι} {n : ℕ}

theorem run_within (hp : (pool i).Within n) (hrun : M.run ls (.start w pool) = some cfg) :
    (cfg.trace i).length ≤ n ∧ (cfg.pool i).Within (n - (cfg.trace i).length) :=
  plays_within (pool_plays hrun i) hp

/-- Running alone and being answered, a bounded program ends within its bound. -/
theorem finish_within {Q : Choice → Prop} {Inv : World → Prop} {P : I.Call → Prop}
    (hanswer : ∀ c w, P c → Inv w → ∃ ch r w', Q ch ∧ M.exec i c ch w = some (r, w') ∧ Inv w')
    {p : Prog I α} (hp : p.Within n) (hcalls : p.Calls P) (hpool : cfg.pool i = p)
    (hinv : Inv cfg.world) : ∃ chs : List Choice, chs.length ≤ n ∧ (∀ ch ∈ chs, Q ch) ∧
      ∃ cfg', M.run (chs.map (.run i)) cfg = some cfg' ∧ ∃ o, cfg'.outcome? i = some o := by
  induction p generalizing n cfg with
  | ret a =>
    refine ⟨[], Nat.zero_le n, by simp, cfg, rfl, .ok a, ?_⟩
    rw [Config.outcome?, hpool]
    rfl
  | throw e =>
    refine ⟨[], Nat.zero_le n, by simp, cfg, rfl, .error e, ?_⟩
    rw [Config.outcome?, hpool]
    rfl
  | call c k ih =>
    obtain ⟨m, rfl, hk⟩ := within_call hp
    obtain ⟨ch, r, w', hch, hx, hinv'⟩ := hanswer c cfg.world hcalls.1 hinv
    obtain ⟨chs, hlength, hQ, cfg', hrun, o, ho⟩ :=
      ih r (hk r) (hcalls.2 r) (cfg.answered_pool_self i r k w') hinv'
    refine ⟨ch :: chs, Nat.succ_le_succ hlength, ?_, cfg',
      Machine.run_cons.mpr ⟨_, Machine.step_run hpool hx, hrun⟩, o, ho⟩
    exact List.forall_mem_cons.mpr ⟨hch, hQ⟩

end Machine

end Async
