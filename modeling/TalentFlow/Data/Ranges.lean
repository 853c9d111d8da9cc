import Mathlib.Order.Lattice
import Mathlib.Order.Defs.LinearOrder

/-!
# Data.Ranges

Ranges whose bounds may be missing. A missing bound is no bound.

* `exists_within_iff`: two ranges have a value in common exactly when none of their lower bounds is
  above one of their upper bounds.
-/

namespace Data.Ranges

variable {α : Type} [LinearOrder α] {a b p q : Option α} {x : α}

def Within (min max : Option α) (x : α) : Prop := (∀ l ∈ min, l ≤ x) ∧ ∀ u ∈ max, x ≤ u

/-- The bounds, as far as they are there, are in order. -/
def InOrder (min max : Option α) : Prop := ∀ l ∈ min, ∀ u ∈ max, l ≤ u

instance (min max : Option α) : Decidable (InOrder min max) :=
  inferInstanceAs (Decidable (∀ l ∈ min, ∀ u ∈ max, l ≤ u))

@[simp] theorem inOrder_none_left : InOrder none b := fun _ hl => by cases hl

@[simp] theorem inOrder_none_right : InOrder a none := fun _ _ _ hu => by cases hu

@[simp] theorem inOrder_some {l u : α} : InOrder (some l) (some u) ↔ l ≤ u := by
  simp [InOrder]

theorem within_none_left : Within none b x ↔ ∀ u ∈ b, x ≤ u := by
  simp [Within]

theorem Within.inOrder (hx : Within a b x) (hx' : Within p q x) : InOrder a q :=
  fun l hl u hu => (hx.1 l hl).trans (hx'.2 u hu)

/-- The smaller of two upper bounds, or some value where there is none. -/
theorem exists_below [Nonempty α] (b q : Option α) : ∃ x, (∀ u ∈ b, x ≤ u) ∧ ∀ u ∈ q, x ≤ u := by
  obtain ⟨y⟩ := ‹Nonempty α›
  cases b with
  | none =>
    cases q with
    | none => exact ⟨y, by simp, by simp⟩
    | some v => exact ⟨v, by simp, by simp⟩
  | some u =>
    cases q with
    | none => exact ⟨u, by simp, by simp⟩
    | some v => exact ⟨min u v, by simp, by simp⟩

/-- Two ranges have a value in common exactly when no lower bound is above an upper bound. -/
theorem exists_within_iff [Nonempty α] : (∃ x, Within a b x ∧ Within p q x) ↔
    (InOrder a b ∧ InOrder p q) ∧ InOrder a q ∧ InOrder p b := by
  constructor
  · rintro ⟨x, hx, hx'⟩
    exact ⟨⟨hx.inOrder hx, hx'.inOrder hx'⟩, hx.inOrder hx', hx'.inOrder hx⟩
  · rintro ⟨⟨hab, hpq⟩, haq, hpb⟩
    -- the larger of the lower bounds, where there is one
    cases a with
    | none =>
      cases p with
      | none =>
        obtain ⟨x, hb, hq⟩ := exists_below b q
        exact ⟨x, within_none_left.mpr hb, within_none_left.mpr hq⟩
      | some m =>
        exact ⟨m, within_none_left.mpr (hpb m rfl), by simp, hpq m rfl⟩
    | some l =>
      cases p with
      | none =>
        exact ⟨l, ⟨by simp, hab l rfl⟩, within_none_left.mpr (haq l rfl)⟩
      | some m =>
        refine ⟨max l m, ⟨by simp, fun u hu => ?_⟩, by simp, fun u hu => ?_⟩
        · exact max_le (hab l rfl u hu) (hpb m rfl u hu)
        · exact max_le (haq l rfl u hu) (hpq m rfl u hu)

end Data.Ranges
