import TalentFlow.Async.Monitor
import Mathlib.Data.Finset.Card

/-!
# Async.Tally

Counting threads by the state of their monitors. Only threads that have made a call are looked at,
so the count is finite and computable; a thread that has made none is in its initial state, which
must not be one that is counted.

* `mem_tally`: what is counted.
* `card_tally_answered`: what one call does to the count.
-/

namespace Async

variable {I : Interface} {σ α ι World : Type} [DecidableEq ι]

/-- The threads whose monitors are in a state that `T` counts. -/
def tally (m : ι → Monitor I σ) (s₀ : ι → σ) (T : ι → σ → Bool) (cfg : Config I ι World α) :
    Finset ι :=
  (cfg.log.map Prod.fst).toFinset.filter fun i => T i (stage m s₀ cfg i) = true

variable {m : ι → Monitor I σ} {s₀ : ι → σ} {T : ι → σ → Bool} {cfg : Config I ι World α}

theorem mem_tally (h₀ : ∀ i, T i (s₀ i) = false) {i : ι} :
    i ∈ tally m s₀ T cfg ↔ T i (stage m s₀ cfg i) = true := by
  constructor
  · intro h
    exact (Finset.mem_filter.mp h).2
  · intro h
    obtain ⟨e, he, -⟩ := exists_event_of_stage (T := fun s => T i s = true) (by simp [h₀ i]) h
    have hmem : i ∈ (cfg.log.map Prod.fst).toFinset :=
      List.mem_toFinset.mpr (List.mem_map.mpr ⟨(i, e), Config.mem_trace.mp he, rfl⟩)
    exact Finset.mem_filter.mpr ⟨hmem, h⟩

section Answered

variable {i : ι} {c : I.Call} (r : I.Answer c) (k : I.Answer c → Prog I α) (w : World)
  (h₀ : ∀ i, T i (s₀ i) = false)

include h₀

theorem mem_tally_answered_ne {j : ι} (hj : j ≠ i) :
    j ∈ tally m s₀ T (cfg.answered i r k w) ↔ j ∈ tally m s₀ T cfg := by
  rw [mem_tally h₀, mem_tally h₀, stage_answered, Function.update_of_ne hj]

theorem mem_tally_answered_self :
    i ∈ tally m s₀ T (cfg.answered i r k w) ↔
      T i ((m i).next (stage m s₀ cfg i) ⟨c, r⟩) = true := by
  rw [mem_tally h₀, stage_answered, Function.update_self]

theorem card_tally_enter (hold : T i (stage m s₀ cfg i) = false)
    (hnew : T i ((m i).next (stage m s₀ cfg i) ⟨c, r⟩) = true) :
    (tally m s₀ T (cfg.answered i r k w)).card = (tally m s₀ T cfg).card + 1 := by
  have hinsert : tally m s₀ T (cfg.answered i r k w) = insert i (tally m s₀ T cfg) := by
    ext j
    rw [Finset.mem_insert]
    by_cases hj : j = i
    · subst hj
      simp [mem_tally_answered_self r k w h₀, hnew]
    · simp [mem_tally_answered_ne r k w h₀ hj, hj]
  have hnot : i ∉ tally m s₀ T cfg := by
    rw [mem_tally h₀, hold]
    simp
  rw [hinsert, Finset.card_insert_of_notMem hnot]

theorem card_tally_leave (hold : T i (stage m s₀ cfg i) = true)
    (hnew : T i ((m i).next (stage m s₀ cfg i) ⟨c, r⟩) = false) :
    (tally m s₀ T (cfg.answered i r k w)).card + 1 = (tally m s₀ T cfg).card := by
  have herase : tally m s₀ T (cfg.answered i r k w) = (tally m s₀ T cfg).erase i := by
    ext j
    rw [Finset.mem_erase]
    by_cases hj : j = i
    · subst hj
      simp [mem_tally_answered_self r k w h₀, hnew]
    · simp [mem_tally_answered_ne r k w h₀ hj, hj]
  have hmem : i ∈ tally m s₀ T cfg := (mem_tally h₀).mpr hold
  rw [herase]
  exact Finset.card_erase_add_one hmem

theorem card_tally_same (h : T i ((m i).next (stage m s₀ cfg i) ⟨c, r⟩) = T i (stage m s₀ cfg i)) :
    (tally m s₀ T (cfg.answered i r k w)).card = (tally m s₀ T cfg).card := by
  have hsame : tally m s₀ T (cfg.answered i r k w) = tally m s₀ T cfg := by
    ext j
    by_cases hj : j = i
    · subst hj
      rw [mem_tally_answered_self r k w h₀, mem_tally h₀, h]
    · exact mem_tally_answered_ne r k w h₀ hj
  rw [hsame]

/-- A call takes its thread out of the count, into it, or leaves it where it is. -/
theorem card_tally_answered : (tally m s₀ T (cfg.answered i r k w)).card +
    (T i (stage m s₀ cfg i)).toNat =
      (tally m s₀ T cfg).card + (T i ((m i).next (stage m s₀ cfg i) ⟨c, r⟩)).toNat := by
  cases hold : T i (stage m s₀ cfg i) with
  | false =>
    cases hnew : T i ((m i).next (stage m s₀ cfg i) ⟨c, r⟩) with
    | false => simp [card_tally_same r k w h₀ (hnew.trans hold.symm)]
    | true => simp [card_tally_enter r k w h₀ hold hnew]
  | true =>
    cases hnew : T i ((m i).next (stage m s₀ cfg i) ⟨c, r⟩) with
    | false => simp [card_tally_leave r k w h₀ hold hnew]
    | true => simp [card_tally_same r k w h₀ (hnew.trans hold.symm)]

end Answered

@[simp] theorem tally_world (w : World) :
    tally m s₀ T { cfg with world := w } = tally m s₀ T cfg := rfl

@[simp] theorem tally_start (w : World) (pool : ι → Prog I α) :
    tally m s₀ T (Config.start w pool) = ∅ := rfl

end Async
