/-!
# Data.Json

Trees of null, booleans, numbers, strings, arrays and objects, over any type of keys and of
numbers. An object is the list of its entries in the order in which they are enumerated.
-/

namespace Data

inductive Json (κ ν : Type) where
  | null
  | bool (b : Bool)
  | number (x : ν)
  | string (s : String)
  | array (items : List (Json κ ν))
  | object (entries : List (κ × Json κ ν))

namespace Json

variable {κ ν : Type}

/-- Neither an array nor an object. -/
def isPrimitive : Json κ ν → Bool
  | .array _ => false
  | .object _ => false
  | _ => true

/-- One step of a path from the root of a tree to one of its subtrees. -/
inductive Step (κ : Type) where
  | key (k : κ)
  | index (i : Nat)

def child? [DecidableEq κ] : Json κ ν → Step κ → Option (Json κ ν)
  | .array xs, .index i => xs[i]?
  | .object es, .key k => es.lookup k
  | _, _ => none

def get? [DecidableEq κ] (v : Json κ ν) : List (Step κ) → Option (Json κ ν)
  | [] => some v
  | s :: path => (v.child? s).bind (·.get? path)

/-! ## Texts -/

section Texts

variable (p : String → Bool)

mutual

/-- Every key and every string of the tree passes. -/
def allTexts : Json String ν → Bool
  | .string s => p s
  | .array items => allItems items
  | .object entries => allEntries entries
  | _ => true

def allItems : List (Json String ν) → Bool
  | [] => true
  | v :: items => allTexts v && allItems items

def allEntries : List (String × Json String ν) → Bool
  | [] => true
  | (k, v) :: entries => p k && allTexts v && allEntries entries

end

end Texts

/-! ## Equality -/

section Equality

variable [DecidableEq κ] [DecidableEq ν]

mutual

def beq : Json κ ν → Json κ ν → Bool
  | .null, .null => true
  | .bool a, .bool b => decide (a = b)
  | .number x, .number y => decide (x = y)
  | .string s, .string t => decide (s = t)
  | .array xs, .array ys => beqItems xs ys
  | .object es, .object fs => beqEntries es fs
  | _, _ => false

def beqItems : List (Json κ ν) → List (Json κ ν) → Bool
  | [], [] => true
  | v :: xs, w :: ys => beq v w && beqItems xs ys
  | _, _ => false

def beqEntries : List (κ × Json κ ν) → List (κ × Json κ ν) → Bool
  | [], [] => true
  | (k, v) :: es, (l, w) :: fs => decide (k = l) && beq v w && beqEntries es fs
  | _, _ => false

end

mutual

theorem beq_iff (v w : Json κ ν) : beq v w = true ↔ v = w := by
  cases v with
  | array xs => cases w <;> simp [beq, beqItems_iff xs]
  | object es => cases w <;> simp [beq, beqEntries_iff es]
  | _ => cases w <;> simp [beq]

theorem beqItems_iff (xs ys : List (Json κ ν)) : beqItems xs ys = true ↔ xs = ys := by
  cases xs with
  | nil => cases ys <;> simp [beqItems]
  | cons v xs => cases ys <;> simp [beqItems, beq_iff v, beqItems_iff xs]

theorem beqEntries_iff (es fs : List (κ × Json κ ν)) : beqEntries es fs = true ↔ es = fs := by
  cases es with
  | nil => cases fs <;> simp [beqEntries]
  | cons e es =>
    obtain ⟨k, v⟩ := e
    cases fs with
    | nil => simp [beqEntries]
    | cons f fs =>
      obtain ⟨l, w⟩ := f
      simp [beqEntries, beq_iff v, beqEntries_iff es]

end

instance : DecidableEq (Json κ ν) := fun v w => decidable_of_iff _ (beq_iff v w)

end Equality

/-! ## Trees that agree off some keys -/

mutual

/-- The trees differ at most in what is stored under keys with `P`. -/
inductive AgreeOff (P : κ → Prop) : Json κ ν → Json κ ν → Prop where
  | refl (v : Json κ ν) : AgreeOff P v v
  | array {xs ys : List (Json κ ν)} : ItemsAgreeOff P xs ys → AgreeOff P (.array xs) (.array ys)
  | object {es fs : List (κ × Json κ ν)} :
      EntriesAgreeOff P es fs → AgreeOff P (.object es) (.object fs)

inductive ItemsAgreeOff (P : κ → Prop) : List (Json κ ν) → List (Json κ ν) → Prop where
  | nil : ItemsAgreeOff P [] []
  | cons {v w : Json κ ν} {xs ys : List (Json κ ν)} :
      AgreeOff P v w → ItemsAgreeOff P xs ys → ItemsAgreeOff P (v :: xs) (w :: ys)

inductive EntriesAgreeOff (P : κ → Prop) :
    List (κ × Json κ ν) → List (κ × Json κ ν) → Prop where
  | nil : EntriesAgreeOff P [] []
  | off {k : κ} (v w : Json κ ν) {es fs : List (κ × Json κ ν)} :
      P k → EntriesAgreeOff P es fs → EntriesAgreeOff P ((k, v) :: es) ((k, w) :: fs)
  | on (k : κ) {v w : Json κ ν} {es fs : List (κ × Json κ ν)} :
      AgreeOff P v w → EntriesAgreeOff P es fs → EntriesAgreeOff P ((k, v) :: es) ((k, w) :: fs)

end

theorem AgreeOff.isPrimitive_eq {P : κ → Prop} {v w : Json κ ν} (h : AgreeOff P v w) :
    v.isPrimitive = w.isPrimitive := by
  cases h <;> rfl

theorem AgreeOff.eq_of_isPrimitive {P : κ → Prop} {v w : Json κ ν} (h : AgreeOff P v w)
    (hv : v.isPrimitive = true) : v = w := by
  cases h with
  | refl _ => rfl
  | array _ => cases hv
  | object _ => cases hv

end Json

end Data
