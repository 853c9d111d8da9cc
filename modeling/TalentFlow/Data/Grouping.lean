import Mathlib.Algebra.Ring.Nat
import Mathlib.Data.List.Dedup
import Mathlib.Data.List.Nodup
import Mathlib.Data.Nat.Notation

/-!
# Data.Grouping

Rows counted by a key: one group for each key that occurs, in any order.

* `lookup_of_isGrouping`: the count looked up for a key is the number of its rows.
* `sum_counts`: over a complete list of keys, the counts add up to the number of rows.
-/

namespace Data.Grouping

variable {ρ κ : Type} [DecidableEq κ] {key : ρ → κ}

structure Group (κ : Type) where
  key : κ
  count : ℕ
  deriving DecidableEq

def countOf (key : ρ → κ) (rows : List ρ) (k : κ) : ℕ :=
  (rows.filter fun r => decide (key r = k)).length

def groups (key : ρ → κ) (rows : List ρ) : List (Group κ) :=
  (rows.map key).dedup.map fun k => ⟨k, countOf key rows k⟩

/-- The groups may come in any order. -/
def IsGrouping (key : ρ → κ) (rows : List ρ) (answer : List (Group κ)) : Prop :=
  answer.Perm (groups key rows)

/-- The count of the first group with the key, 0 if there is none. -/
def lookup (answer : List (Group κ)) (k : κ) : ℕ :=
  match answer.find? fun g => decide (g.key = k) with
  | some found => found.count
  | none => 0

theorem mem_groups {rows : List ρ} {g : Group κ} :
    g ∈ groups key rows ↔ (∃ r ∈ rows, key r = g.key) ∧ g.count = countOf key rows g.key := by
  simp only [groups, List.mem_map, List.mem_dedup]
  constructor
  · rintro ⟨k, ⟨r, hr, rfl⟩, rfl⟩
    exact ⟨⟨r, hr, rfl⟩, rfl⟩
  · rintro ⟨⟨r, hr, hk⟩, hcount⟩
    exact ⟨g.key, ⟨r, hr, hk⟩, by rw [← hcount]⟩

theorem lookup_of_isGrouping {rows : List ρ} {answer : List (Group κ)}
    (h : IsGrouping key rows answer) (k : κ) : lookup answer k = countOf key rows k := by
  unfold lookup
  split
  · rename_i found hfound
    have hkey : found.key = k := by simpa using List.find?_some hfound
    have hmem : found ∈ groups key rows := h.mem_iff.mp (List.mem_of_find?_eq_some hfound)
    rw [(mem_groups.mp hmem).2, hkey]
  · rename_i hnone
    symm
    rw [countOf, List.length_eq_zero_iff, List.filter_eq_nil_iff]
    intro r hr hk
    have hgroup : (⟨k, countOf key rows k⟩ : Group κ) ∈ answer :=
      h.mem_iff.mpr (mem_groups.mpr ⟨⟨r, hr, of_decide_eq_true hk⟩, rfl⟩)
    have := List.find?_eq_none.mp hnone _ hgroup
    simp at this

theorem sum_counts_cons {keys : List κ} (hnodup : keys.Nodup) {r : ρ} (hr : key r ∈ keys)
    (rows : List ρ) :
    (keys.map (countOf key (r :: rows))).sum = (keys.map (countOf key rows)).sum + 1 := by
  have hself : countOf key (r :: rows) (key r) = countOf key rows (key r) + 1 := by
    simp [countOf]
  have hother : ∀ k, key r ≠ k → countOf key (r :: rows) k = countOf key rows k := by
    intro k hk
    simp [countOf, hk]
  induction keys with
  | nil => cases hr
  | cons k keys ih =>
    rw [List.nodup_cons] at hnodup
    simp only [List.map_cons, List.sum_cons]
    by_cases hk : key r = k
    · have hrest : keys.map (countOf key (r :: rows)) = keys.map (countOf key rows) :=
        List.map_congr_left fun l hl => hother l fun heq => hnodup.1 (hk ▸ heq ▸ hl)
      rw [hrest, ← hk, hself]
      omega
    · have hmem : key r ∈ keys := (List.mem_cons.mp hr).resolve_left hk
      rw [hother k hk, ih hnodup.2 hmem]
      omega

theorem sum_counts {keys : List κ} (hnodup : keys.Nodup) {rows : List ρ}
    (hall : ∀ r ∈ rows, key r ∈ keys) : (keys.map (countOf key rows)).sum = rows.length := by
  induction rows with
  | nil =>
    have hzero : keys.map (countOf key []) = keys.map fun _ => 0 := rfl
    simp [hzero]
  | cons r rows ih =>
    rw [sum_counts_cons hnodup (hall r List.mem_cons_self),
      ih fun x hx => hall x (List.mem_cons_of_mem r hx), List.length_cons]

end Data.Grouping
