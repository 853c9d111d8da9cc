import TalentFlow.Gateway.Sanitize

/-!
# Guarantees.Redaction

What `sanitize` hides and what it keeps: a value under a sensitive key has no influence on the
result, and a primitive that is not too deep and under no sensitive key stays where it is.
-/

namespace TalentFlow.Sanitize

open Data Json

variable {ν : Type}

theorem sanitizeAt_primitive {d : Nat} {v : Json PropertyName ν} (hd : d ≤ MAX_DEPTH)
    (hv : v.isPrimitive = true) : sanitizeAt d v = v := by
  cases v with
  | array _ => cases hv
  | object _ => cases hv
  | _ => simp [sanitizeAt, Nat.not_lt.mpr hd]

theorem sanitizeAt_array {d : Nat} (hd : d ≤ MAX_DEPTH) (xs : List (Json PropertyName ν)) :
    sanitizeAt d (.array xs) = .array (sanitizeItems (d + 1) xs) := by
  simp [sanitizeAt, Nat.not_lt.mpr hd]

theorem sanitizeAt_object {d : Nat} (hd : d ≤ MAX_DEPTH)
    (es : List (PropertyName × Json PropertyName ν)) :
    sanitizeAt d (.object es) = .object (sanitizeEntries (d + 1) es) := by
  simp [sanitizeAt, Nat.not_lt.mpr hd]

/-! ## What is hidden -/

mutual

theorem sanitizeAt_congr (d : Nat) {v w : Json PropertyName ν} (h : AgreeOff IsSensitive v w) :
    sanitizeAt d v = sanitizeAt d w := by
  cases h with
  | refl _ => rfl
  | array hxs => simp only [sanitizeAt, sanitizeItems_congr (d + 1) hxs]
  | object hes => simp only [sanitizeAt, sanitizeEntries_congr (d + 1) hes]

theorem sanitizeItems_congr (d : Nat) {xs ys : List (Json PropertyName ν)}
    (h : ItemsAgreeOff IsSensitive xs ys) : sanitizeItems d xs = sanitizeItems d ys := by
  cases h with
  | nil => rfl
  | cons hv hxs => simp only [sanitizeItems, sanitizeAt_congr d hv, sanitizeItems_congr d hxs]

theorem sanitizeEntries_congr (d : Nat) {es fs : List (PropertyName × Json PropertyName ν)}
    (h : EntriesAgreeOff IsSensitive es fs) : sanitizeEntries d es = sanitizeEntries d fs := by
  cases h with
  | nil => rfl
  | off v w hk hes => simp only [sanitizeEntries, if_pos hk, sanitizeEntries_congr d hes]
  | on k hv hes =>
    rename_i v w es fs
    have hfield : (if v.isPrimitive then v else sanitizeAt d v) =
        if w.isPrimitive then w else sanitizeAt d w := by
      cases hp : v.isPrimitive with
      | true =>
        have hvw : v = w := hv.eq_of_isPrimitive hp
        rw [← hvw, hp]
      | false =>
        rw [← hv.isPrimitive_eq, hp]
        exact sanitizeAt_congr d hv
    simp only [sanitizeEntries, hfield, sanitizeEntries_congr d hes]

end

/-! ## What is kept -/

theorem sanitizeItems_getElem? (d : Nat) (xs : List (Json PropertyName ν)) (i : Nat) :
    (sanitizeItems d xs)[i]? = xs[i]?.map (sanitizeAt d) := by
  induction xs generalizing i with
  | nil => rfl
  | cons x xs ih =>
    cases i with
    | zero => rfl
    | succ i => exact ih i

theorem sanitizeEntries_lookup (d : Nat) (es : List (PropertyName × Json PropertyName ν))
    {k : PropertyName} (hk : ¬ IsSensitive k) :
    (sanitizeEntries d es).lookup k =
      (es.lookup k).map fun v => if v.isPrimitive then v else sanitizeAt d v := by
  induction es with
  | nil => rfl
  | cons e es ih =>
    obtain ⟨k', v⟩ := e
    by_cases hkk : k = k'
    · subst hkk
      simp [sanitizeEntries, hk]
    · have hbeq : (k == k') = false := beq_eq_false_iff_ne.mpr hkk
      simp only [sanitizeEntries, List.lookup_cons, hbeq]
      exact ih

/-- The child behind a step that is no sensitive key becomes its own sanitized form, except
that an object keeps its primitive values. -/
theorem child?_sanitizeAt {d : Nat} (hd : d ≤ MAX_DEPTH) {v c : Json PropertyName ν}
    {s : Step PropertyName} (hs : ∀ k, s = .key k → ¬ IsSensitive k) (h : v.child? s = some c) :
    (sanitizeAt d v).child? s = some (sanitizeAt (d + 1) c) ∨
      c.isPrimitive = true ∧ (sanitizeAt d v).child? s = some c := by
  cases v with
  | array xs =>
    cases s with
    | key k => cases h
    | index i =>
      have hi : xs[i]? = some c := h
      left
      simp only [sanitizeAt_array hd, child?, sanitizeItems_getElem?, hi, Option.map_some]
  | object es =>
    cases s with
    | index i => cases h
    | key k =>
      have hk : es.lookup k = some c := h
      have hlook := sanitizeEntries_lookup (d + 1) es (hs k rfl)
      rw [hk, Option.map_some] at hlook
      rw [sanitizeAt_object hd]
      cases hc : c.isPrimitive with
      | true => exact .inr ⟨rfl, by simpa only [child?, hc, if_true] using hlook⟩
      | false => exact .inl (by simpa [child?, hc] using hlook)
  | _ => cases s <;> cases h

/-- A primitive behind a path that ends within the depth limit and has no sensitive key stays
behind this path. -/
theorem get?_sanitizeAt {path : List (Step PropertyName)} {d : Nat}
    {v leaf : Json PropertyName ν} (hlen : d + path.length ≤ MAX_DEPTH)
    (hpath : ∀ k, Step.key k ∈ path → ¬ IsSensitive k) (hleaf : leaf.isPrimitive = true)
    (h : v.get? path = some leaf) : (sanitizeAt d v).get? path = some leaf := by
  induction path generalizing d v with
  | nil =>
    have hv : v = leaf := Option.some.inj h
    subst hv
    have hd : d ≤ MAX_DEPTH := hlen
    rw [sanitizeAt_primitive hd hleaf]
    rfl
  | cons s path ih =>
    simp only [List.length_cons] at hlen
    obtain ⟨c, hc, hrest⟩ := Option.bind_eq_some_iff.mp h
    have hs : ∀ k, s = .key k → ¬ IsSensitive k :=
      fun k hk => hpath k (hk ▸ List.mem_cons_self)
    have htail : ∀ k, Step.key k ∈ path → ¬ IsSensitive k :=
      fun k hk => hpath k (List.mem_cons_of_mem _ hk)
    have hd : d ≤ MAX_DEPTH := by omega
    rcases child?_sanitizeAt hd hs hc with hchild | ⟨hprim, hchild⟩
    · simp only [get?, hchild, Option.bind_some]
      exact ih (by omega) htail hrest
    · simp only [get?, hchild, Option.bind_some]
      exact hrest

/-! ## The two together -/

/-- Two values that agree off the sensitive keys are logged alike, and every shallow primitive
that no sensitive key guards is logged as it is. -/
theorem sanitize_hides_and_keeps :
    (∀ v w : Json PropertyName ν, AgreeOff IsSensitive v w → sanitize v = sanitize w) ∧
      ∀ (v leaf : Json PropertyName ν) (path : List (Step PropertyName)), path.length ≤ 5 →
        (∀ k, Step.key k ∈ path → ¬ IsSensitive k) → leaf.isPrimitive = true →
          v.get? path = some leaf → (sanitize v).get? path = some leaf := by
  constructor
  · intro v w h
    exact sanitizeAt_congr 0 h
  · intro v leaf path hlen hpath hleaf h
    exact get?_sanitizeAt (by simpa [MAX_DEPTH] using hlen) hpath hleaf h

/-- A request body with a credential in it, of which the user name is kept. -/
def login (credential : Json PropertyName Nat) : Json PropertyName Nat :=
  .object [(⟨"user", by decide⟩, .array [.string "ada"]), (⟨"userPassword", by decide⟩, credential)]

theorem sanitize_hides_and_keeps_login :
    sanitize (login (.string "hunter2")) = sanitize (login (.array [.null])) ∧
      (sanitize (login .null)).get? [.key ⟨"user", by decide⟩, .index 0] = some (.string "ada") := by
  constructor
  · refine (sanitize_hides_and_keeps).1 _ _ (.object (.on _ (.refl _) (.off _ _ ?_ .nil)))
    decide +kernel
  · refine (sanitize_hides_and_keeps).2 _ _ _ (by decide) ?_ rfl (by rfl)
    intro k hk
    have huser : k = ⟨"user", by decide⟩ := by simpa using hk
    subst huser
    decide +kernel

end TalentFlow.Sanitize
