import Mathlib.Logic.Function.Basic

/-!
# Data.Expiring

Keyed stores whose entries may expire. An entry lives until its expiry time and reads as absent
from then on; an entry without one lives until it is deleted. Keys may hold values of different
types.
-/

namespace Data

structure Entry (α : Type) where
  value : α
  expiresAt : Option Nat

def Entry.live {α : Type} (e : Entry α) (now : Nat) : Option α :=
  match e.expiresAt with
  | none => some e.value
  | some t => if now < t then some e.value else none

/-- A store of keys `κ` with a value of type `V k` at key `k`. -/
structure Expiring (κ : Type) (V : κ → Type) where
  entry : (k : κ) → Option (Entry (V k))

namespace Expiring

variable {κ : Type} {V : κ → Type}

def empty : Expiring κ V := ⟨fun _ => none⟩

def get (s : Expiring κ V) (now : Nat) (k : κ) : Option (V k) := (s.entry k).bind (·.live now)

/-- A key that still exists later holds the same value now. -/
theorem get_some_mono {s : Expiring κ V} {now now' : Nat} {k : κ} {v : V k} (hle : now ≤ now')
    (h : s.get now' k = some v) : s.get now k = some v := by
  simp only [get] at h ⊢
  cases hs : s.entry k with
  | none => rw [hs] at h; cases h
  | some e =>
    rw [hs] at h
    simp only [Option.bind_some, Entry.live] at h ⊢
    cases he : e.expiresAt with
    | none => rw [he] at h; exact h
    | some t =>
      rw [he] at h
      simp only [Option.ite_none_right_eq_some] at h ⊢
      exact ⟨by omega, h.2⟩

variable [DecidableEq κ]

def set (s : Expiring κ V) (k : κ) (v : V k) (expiresAt : Option Nat) : Expiring κ V :=
  ⟨Function.update s.entry k (some ⟨v, expiresAt⟩)⟩

def del (s : Expiring κ V) (k : κ) : Expiring κ V := ⟨Function.update s.entry k none⟩

@[simp] theorem entry_set_self (s : Expiring κ V) (k : κ) (v : V k) (x : Option Nat) :
    (s.set k v x).entry k = some ⟨v, x⟩ := by
  simp [set]

@[simp] theorem entry_set_ne (s : Expiring κ V) {k k' : κ} (v : V k) (x : Option Nat)
    (h : k' ≠ k) : (s.set k v x).entry k' = s.entry k' := by
  simp [set, h]

@[simp] theorem entry_del_self (s : Expiring κ V) (k : κ) : (s.del k).entry k = none := by
  simp [del]

@[simp] theorem entry_del_ne (s : Expiring κ V) {k k' : κ} (h : k' ≠ k) :
    (s.del k).entry k' = s.entry k' := by
  simp [del, h]

@[simp] theorem get_set_self (s : Expiring κ V) (k : κ) (v : V k) (x : Option Nat) (now : Nat) :
    (s.set k v x).get now k = (Entry.mk v x).live now := by
  simp [get, set]

@[simp] theorem get_set_ne (s : Expiring κ V) {k k' : κ} (v : V k) (x : Option Nat) (now : Nat)
    (h : k' ≠ k) : (s.set k v x).get now k' = s.get now k' := by
  simp [get, set, h]

@[simp] theorem get_del_self (s : Expiring κ V) (k : κ) (now : Nat) :
    (s.del k).get now k = none := by
  simp [get, del]

@[simp] theorem get_del_ne (s : Expiring κ V) {k k' : κ} (now : Nat) (h : k' ≠ k) :
    (s.del k).get now k' = s.get now k' := by
  simp [get, del, h]

theorem live_until {α : Type} (v : α) (t now : Nat) :
    (Entry.mk v (some t)).live now = if now < t then some v else none := rfl

theorem get_set_keep {s : Expiring κ V} {k : κ} {now : Nat} {v : V k} (h : s.get now k = some v)
    (v' : V k) : (s.set k v' ((s.entry k).bind (·.expiresAt))).get now k = some v' := by
  rw [get_set_self]
  obtain ⟨e, he, hlive⟩ := Option.bind_eq_some_iff.mp h
  rw [he, Option.bind_some]
  obtain ⟨value, expiresAt⟩ := e
  cases expiresAt with
  | none => rfl
  | some t =>
    rw [live_until] at hlive ⊢
    split at hlive
    · rename_i hlt
      rw [if_pos hlt]
    · cases hlive

end Expiring

end Data
