import TalentFlow.Data.Table
import Mathlib.Data.List.Perm.Basic

/-!
# Data.Matching

Tables that are related row by row. If related rows have the same keys, the tables answer a lookup
alike, refuse the same rows, and stay related when related rows are added or a row is changed alike.
-/

namespace Data

/-- Related lists give related elements for conditions that agree on related elements. -/
theorem forall₂_find? {ρ : Type} {R : ρ → ρ → Prop} {p p' : ρ → Bool}
    (hp : ∀ x y, R x y → p' y = p x) {l l' : List ρ} (h : List.Forall₂ R l l') :
    Option.Rel R (l.find? p) (l'.find? p') := by
  induction h with
  | nil => exact .none
  | @cons x y l l' hxy hl ih =>
    rw [List.find?_cons, List.find?_cons, hp x y hxy]
    cases p x with
    | true => exact .some hxy
    | false => exact ih

theorem forall₂_map_eq {ρ κ : Type} {R : ρ → ρ → Prop} {f : ρ → κ} (hf : ∀ x y, R x y → f y = f x)
    {l l' : List ρ} (h : List.Forall₂ R l l') : l'.map f = l.map f := by
  induction h with
  | nil => rfl
  | cons hxy hl ih => rw [List.map_cons, List.map_cons, hf _ _ hxy, ih]

theorem forall₂_forall {ρ : Type} {R : ρ → ρ → Prop} {p p' : ρ → Prop}
    (hp : ∀ x y, R x y → p x → p' y) {l l' : List ρ} (h : List.Forall₂ R l l')
    (hl : ∀ x ∈ l, p x) : ∀ y ∈ l', p' y := by
  induction h with
  | nil => exact fun y hy => absurd hy List.not_mem_nil
  | @cons x y l l' hxy _ ih =>
    rw [List.forall_mem_cons] at hl ⊢
    exact ⟨hp x y hxy hl.1, ih hl.2⟩

theorem forall₂_pairwise {ρ : Type} {R r r' : ρ → ρ → Prop}
    (hr : ∀ x y x' y', R x x' → R y y' → r x y → r' x' y') {l l' : List ρ}
    (h : List.Forall₂ R l l') (hl : l.Pairwise r) : l'.Pairwise r' := by
  induction h with
  | nil => exact .nil
  | @cons x x' l l' hx hl' ih =>
    obtain ⟨hfirst, hrest⟩ := List.pairwise_cons.mp hl
    exact .cons (forall₂_forall (fun y y' hy => hr x y x' y' hx hy) hl' hfirst) (ih hrest)

namespace Table

variable {ρ κ μ : Type} {key : ρ → κ} {ukey : ρ → μ} {R : ρ → ρ → Prop}
  {t t' : Table ρ κ μ key ukey}

def Matches (R : ρ → ρ → Prop) (t t' : Table ρ κ μ key ukey) : Prop :=
  List.Forall₂ R t.rows t'.rows

theorem hasKey_matches (hkey : ∀ x y, R x y → key y = key x) (h : t.Matches R t') {k : κ} :
    t'.HasKey k ↔ t.HasKey k := by
  have hkeys := forall₂_map_eq hkey h
  simp only [HasKey, ← List.mem_map, hkeys]

theorem find?_matches [DecidableEq κ] (hkey : ∀ x y, R x y → key y = key x) (h : t.Matches R t')
    (k : κ) : Option.Rel R (t.find? k) (t'.find? k) :=
  forall₂_find? (fun x y hxy => by rw [hkey x y hxy]) h

theorem findUnique?_matches [DecidableEq μ] (hukey : ∀ x y, R x y → ukey y = ukey x)
    (h : t.Matches R t') (u : μ) : Option.Rel R (t.findUnique? u) (t'.findUnique? u) :=
  forall₂_find? (fun x y hxy => by rw [hukey x y hxy]) h

theorem modify_matches [DecidableEq κ] (hkey : ∀ x y, R x y → key y = key x) (h : t.Matches R t')
    {k : κ} {f : ρ → ρ} {hf : ∀ r, key (f r) = key r} {hf' : ∀ r, ukey (f r) = ukey r}
    (hR : ∀ x y, R x y → R (f x) (f y)) :
    (t.modify k f hf hf').Matches R (t'.modify k f hf hf') := by
  refine List.forall₂_map_left_iff.mpr (List.forall₂_map_right_iff.mpr (h.imp fun x y hxy => ?_))
  rw [hkey x y hxy]
  split
  · exact hR x y hxy
  · exact hxy

theorem isFree_iff {l : List ρ} {k : κ} {u : μ} :
    (∀ x ∈ l, key x ≠ k ∧ ukey x ≠ u) ↔ k ∉ l.map key ∧ u ∉ l.map ukey := by
  simp only [List.mem_map, not_exists, not_and, forall_and]

theorem insert?_matches [DecidableEq κ] [DecidableEq μ] (hkey : ∀ x y, R x y → key y = key x)
    (hukey : ∀ x y, R x y → ukey y = ukey x) (h : t.Matches R t') {r r' : ρ} (hr : R r r') :
    Option.Rel (Matches R) (t.insert? r) (t'.insert? r') := by
  have hfree : (∀ y ∈ t'.rows, key y ≠ key r' ∧ ukey y ≠ ukey r') ↔
      ∀ x ∈ t.rows, key x ≠ key r ∧ ukey x ≠ ukey r := by
    rw [hkey r r' hr, hukey r r' hr, isFree_iff, isFree_iff, forall₂_map_eq hkey h,
      forall₂_map_eq hukey h]
  unfold insert?
  by_cases hnew : ∀ x ∈ t.rows, key x ≠ key r ∧ ukey x ≠ ukey r
  · rw [dif_pos hnew, dif_pos (hfree.mpr hnew)]
    exact .some (List.rel_append h (.cons hr .nil))
  · rw [dif_neg hnew, dif_neg (mt hfree.mp hnew)]
    exact .none

end Table

end Data
