import Mathlib.Data.List.Forall2
import Mathlib.Data.List.Infix

/-!
# Data.Regex

Regular expressions over character classes. `rests` is a backtracking matcher: what may be left of
a text after a match at its start, in the order in which the matcher tries. `Spells` is the language
of an expression; `mem_rests` says that the matcher finds exactly its words.

* `isMatch_iff`: a match of the whole text.
* `find_iff`: a match somewhere in the text.
* `spells_word`, `spells_plus_one`, `spells_times_one`, `spells_between_one`: the words of the
  expressions that validation rules are made of.
-/

namespace Data

inductive Regex where
  | empty
  /-- one character of a class -/
  | one (p : Char → Bool)
  | seq (r t : Regex)
  | alt (r t : Regex)
  /-- greedy repetition -/
  | star (r : Regex)

namespace Regex

/-- Takes as many non-empty steps as there can be, at most `n`, and gives them back one by one. -/
def greedy (step : List Char → List (List Char)) : Nat → List Char → List (List Char)
  | 0, s => [s]
  | n + 1, s =>
    ((step s).filter fun t => t.length < s.length).flatMap (greedy step n) ++ [s]

/-- What a match at the start of a text can leave of it, in the order in which it is tried. -/
def rests : Regex → List Char → List (List Char)
  | empty, s => [s]
  | one _, [] => []
  | one p, c :: s => if p c then [s] else []
  | seq r t, s => (r.rests s).flatMap t.rests
  | alt r t, s => r.rests s ++ t.rests s
  | star r, s => greedy r.rests s.length s

def isMatch (r : Regex) (s : String) : Bool := (r.rests s.toList).any List.isEmpty

def find (r : Regex) (s : String) : Bool := s.toList.tails.any fun t => !(r.rests t).isEmpty

/-- The words of an expression. -/
def Spells : Regex → List Char → Prop
  | empty, m => m = []
  | one p, m => ∃ c, p c = true ∧ m = [c]
  | seq r t, m => ∃ u v, r.Spells u ∧ t.Spells v ∧ m = u ++ v
  | alt r t, m => r.Spells m ∨ t.Spells m
  | star r, m => ∃ us : List (List Char), (∀ u ∈ us, r.Spells u) ∧ m = us.flatten

theorem Spells.seq {r t : Regex} {u v : List Char} (hu : r.Spells u) (hv : t.Spells v) :
    (Regex.seq r t).Spells (u ++ v) := ⟨u, v, hu, hv, rfl⟩

theorem mem_greedy {step : List Char → List (List Char)} {P : List Char → Prop}
    (hstep : ∀ s t, t ∈ step s ↔ ∃ m, P m ∧ s = m ++ t) {n : Nat} {s t : List Char}
    (hn : s.length ≤ n) :
    t ∈ greedy step n s ↔ ∃ us : List (List Char), (∀ u ∈ us, P u) ∧ s = us.flatten ++ t := by
  induction n generalizing s with
  | zero =>
    have hs : s = [] := List.length_eq_zero_iff.mp (Nat.le_zero.mp hn)
    subst hs
    simp only [greedy, List.mem_singleton]
    constructor
    · rintro rfl
      exact ⟨[], by simp, rfl⟩
    · rintro ⟨us, -, h⟩
      exact (List.append_eq_nil_iff.mp h.symm).2
  | succ n ih =>
    simp only [greedy, List.mem_append, List.mem_singleton, List.mem_flatMap, List.mem_filter,
      decide_eq_true_eq]
    constructor
    · rintro (⟨s', ⟨hs', hlt⟩, ht⟩ | rfl)
      · obtain ⟨m, hm, rfl⟩ := (hstep s s').mp hs'
        obtain ⟨us, hus, rfl⟩ := (ih (by omega)).mp ht
        refine ⟨m :: us, ?_, by simp⟩
        intro u hu
        rcases List.mem_cons.mp hu with rfl | hu
        · exact hm
        · exact hus u hu
      · exact ⟨[], by simp, rfl⟩
    · rintro ⟨us, hus, hs⟩
      -- empty steps lead nowhere
      rw [← List.flatten_filter_ne_nil] at hs
      cases hne : us.filter (· ≠ []) with
      | nil =>
        rw [hne] at hs
        exact .inr hs.symm
      | cons u rest =>
        have hmem : ∀ v ∈ u :: rest, v ∈ us ∧ v ≠ [] := by
          intro v hv
          rw [← hne] at hv
          simpa using hv
        rw [hne, List.flatten_cons, List.append_assoc] at hs
        have hpos : 0 < u.length := List.length_pos_iff.mpr (hmem u List.mem_cons_self).2
        have hlt : (rest.flatten ++ t).length < s.length := by
          rw [hs]
          simp only [List.length_append]
          omega
        refine .inl ⟨rest.flatten ++ t, ⟨(hstep _ _).mpr ⟨u, ?_, hs⟩, hlt⟩, ?_⟩
        · exact hus u (hmem u List.mem_cons_self).1
        · exact (ih (by omega)).mpr
            ⟨rest, fun v hv => hus v (hmem v (List.mem_cons_of_mem _ hv)).1, rfl⟩

/-- The matcher finds exactly the words of the expression. -/
theorem mem_rests (r : Regex) (s t : List Char) :
    t ∈ r.rests s ↔ ∃ m, r.Spells m ∧ s = m ++ t := by
  induction r generalizing s t with
  | empty =>
    simp only [rests, List.mem_singleton, Spells]
    constructor
    · rintro rfl
      exact ⟨[], rfl, rfl⟩
    · rintro ⟨m, rfl, h⟩
      exact h.symm
  | one p =>
    cases s with
    | nil =>
      simp only [rests, List.not_mem_nil, false_iff, Spells]
      rintro ⟨m, ⟨c, -, rfl⟩, h⟩
      cases h
    | cons c s =>
      simp only [rests, Spells]
      constructor
      · intro h
        split at h
        · rename_i hc
          obtain rfl := List.mem_singleton.mp h
          exact ⟨[c], ⟨c, hc, rfl⟩, rfl⟩
        · cases h
      · rintro ⟨m, ⟨c', hc', rfl⟩, h⟩
        obtain ⟨rfl, rfl⟩ := List.cons.inj h
        simp [hc']
  | seq r t ihr iht =>
    simp only [rests, List.mem_flatMap, ihr, iht, Spells]
    constructor
    · rintro ⟨_, ⟨u, hu, rfl⟩, v, hv, rfl⟩
      exact ⟨u ++ v, ⟨u, v, hu, hv, rfl⟩, by simp⟩
    · rintro ⟨_, ⟨u, v, hu, hv, rfl⟩, h⟩
      exact ⟨_, ⟨u, hu, by rw [h, List.append_assoc]⟩, v, hv, rfl⟩
  | alt r t ihr iht =>
    simp only [rests, List.mem_append, ihr, iht, Spells]
    constructor
    · rintro (⟨m, hm, h⟩ | ⟨m, hm, h⟩)
      · exact ⟨m, .inl hm, h⟩
      · exact ⟨m, .inr hm, h⟩
    · rintro ⟨m, hm | hm, h⟩
      · exact .inl ⟨m, hm, h⟩
      · exact .inr ⟨m, hm, h⟩
  | star r ih =>
    simp only [rests, Spells, mem_greedy ih (Nat.le_refl _)]
    constructor
    · rintro ⟨us, hus, h⟩
      exact ⟨_, ⟨us, hus, rfl⟩, h⟩
    · rintro ⟨_, ⟨us, hus, rfl⟩, h⟩
      exact ⟨us, hus, h⟩

theorem isMatch_iff {r : Regex} {s : String} : r.isMatch s = true ↔ r.Spells s.toList := by
  simp only [isMatch, List.any_eq_true, mem_rests, List.isEmpty_iff]
  constructor
  · rintro ⟨_, ⟨m, hm, h⟩, rfl⟩
    rw [h, List.append_nil]
    exact hm
  · intro h
    exact ⟨[], ⟨_, h, (List.append_nil _).symm⟩, rfl⟩

theorem find_iff {r : Regex} {s : String} :
    r.find s = true ↔ ∃ m, r.Spells m ∧ m <:+: s.toList := by
  simp only [find, List.any_eq_true, List.mem_tails, Bool.not_eq_true', List.isEmpty_eq_false_iff]
  constructor
  · rintro ⟨t, ⟨before, ht⟩, hne⟩
    obtain ⟨after, hafter⟩ := List.exists_mem_of_ne_nil _ hne
    obtain ⟨m, hm, rfl⟩ := (mem_rests r t after).mp hafter
    exact ⟨m, hm, before, after, by rw [List.append_assoc, ht]⟩
  · rintro ⟨m, hm, before, after, h⟩
    refine ⟨m ++ after, ⟨before, by rw [← List.append_assoc, h]⟩, ?_⟩
    exact List.ne_nil_of_mem ((mem_rests r _ after).mpr ⟨m, hm, rfl⟩)

/-! ## Words -/

def word : List (Char → Bool) → Regex
  | [] => empty
  | p :: ps => seq (one p) (word ps)

def plus (r : Regex) : Regex := seq r (star r)

def times : Nat → Regex → Regex
  | 0, _ => empty
  | n + 1, r => seq r (times n r)

def opt (r : Regex) : Regex := alt r empty

def upTo : Nat → Regex → Regex
  | 0, _ => empty
  | n + 1, r => alt (seq r (upTo n r)) empty

def between (m n : Nat) (r : Regex) : Regex := seq (times m r) (upTo (n - m) r)

theorem spells_word {ps : List (Char → Bool)} {m : List Char} :
    (word ps).Spells m ↔ List.Forall₂ (fun p c => p c = true) ps m := by
  induction ps generalizing m with
  | nil => simp [word, Spells]
  | cons p ps ih =>
    simp only [word, Spells, ih, List.forall₂_cons_left_iff]
    constructor
    · rintro ⟨_, v, ⟨c, hc, rfl⟩, hv, rfl⟩
      exact ⟨c, v, hc, hv, rfl⟩
    · rintro ⟨c, v, hc, hv, rfl⟩
      exact ⟨[c], v, ⟨c, hc, rfl⟩, hv, rfl⟩

theorem spells_star_one {p : Char → Bool} {m : List Char} :
    (star (one p)).Spells m ↔ ∀ c ∈ m, p c = true := by
  constructor
  · rintro ⟨us, hus, rfl⟩ c hc
    obtain ⟨u, hu, hcu⟩ := List.mem_flatten.mp hc
    obtain ⟨c', hc', rfl⟩ := hus u hu
    rwa [List.mem_singleton.mp hcu]
  · intro h
    refine ⟨m.map fun c => [c], ?_, by rw [← List.flatMap_def, List.flatMap_singleton']⟩
    intro u hu
    obtain ⟨c, hc, rfl⟩ := List.mem_map.mp hu
    exact ⟨c, h c hc, rfl⟩

theorem spells_plus_one {p : Char → Bool} {m : List Char} :
    (plus (one p)).Spells m ↔ m ≠ [] ∧ ∀ c ∈ m, p c = true := by
  constructor
  · rintro ⟨_, v, ⟨c, hc, rfl⟩, hv, rfl⟩
    have hrest := spells_star_one.mp hv
    refine ⟨by simp, ?_⟩
    simpa [hc] using hrest
  · rintro ⟨hne, h⟩
    cases m with
    | nil => exact absurd rfl hne
    | cons c m =>
      refine ⟨[c], m, ⟨c, h c List.mem_cons_self, rfl⟩, spells_star_one.mpr ?_, rfl⟩
      exact fun d hd => h d (List.mem_cons_of_mem _ hd)

theorem spells_times_one {p : Char → Bool} {n : Nat} {m : List Char} :
    (times n (one p)).Spells m ↔ m.length = n ∧ ∀ c ∈ m, p c = true := by
  induction n generalizing m with
  | zero =>
    simp only [times, Spells, List.length_eq_zero_iff]
    exact ⟨fun h => ⟨h, by simp [h]⟩, fun h => h.1⟩
  | succ n ih =>
    simp only [times, Spells, ih]
    constructor
    · rintro ⟨_, v, ⟨c, hc, rfl⟩, ⟨rfl, hv⟩, rfl⟩
      exact ⟨by simp, by simpa [hc] using hv⟩
    · rintro ⟨hlen, h⟩
      cases m with
      | nil => cases hlen
      | cons c m =>
        refine ⟨[c], m, ⟨c, h c List.mem_cons_self, rfl⟩, ⟨by simpa using hlen, ?_⟩, rfl⟩
        exact fun d hd => h d (List.mem_cons_of_mem _ hd)

theorem spells_upTo_one {p : Char → Bool} {n : Nat} {m : List Char} :
    (upTo n (one p)).Spells m ↔ m.length ≤ n ∧ ∀ c ∈ m, p c = true := by
  induction n generalizing m with
  | zero =>
    simp only [upTo, Spells, Nat.le_zero, List.length_eq_zero_iff]
    exact ⟨fun h => ⟨h, by simp [h]⟩, fun h => h.1⟩
  | succ n ih =>
    simp only [upTo, Spells, ih]
    constructor
    · rintro (⟨_, v, ⟨c, hc, rfl⟩, ⟨hlen, hv⟩, rfl⟩ | rfl)
      · exact ⟨by simpa using hlen, by simpa [hc] using hv⟩
      · exact ⟨by simp, by simp⟩
    · rintro ⟨hlen, h⟩
      cases m with
      | nil => exact .inr rfl
      | cons c m =>
        refine .inl ⟨[c], m, ⟨c, h c List.mem_cons_self, rfl⟩, ⟨by simpa using hlen, ?_⟩, rfl⟩
        exact fun d hd => h d (List.mem_cons_of_mem _ hd)

theorem spells_between_one {p : Char → Bool} {k n : Nat} (hkn : k ≤ n) {m : List Char} :
    (between k n (one p)).Spells m ↔ k ≤ m.length ∧ m.length ≤ n ∧ ∀ c ∈ m, p c = true := by
  simp only [between, Spells, spells_times_one, spells_upTo_one]
  constructor
  · rintro ⟨u, v, ⟨hu, hpu⟩, ⟨hv, hpv⟩, rfl⟩
    simp only [List.length_append, List.mem_append]
    refine ⟨by omega, by omega, ?_⟩
    rintro c (hc | hc)
    · exact hpu c hc
    · exact hpv c hc
  · rintro ⟨hk, hn, h⟩
    refine ⟨m.take k, m.drop k, ⟨List.length_take_of_le hk, ?_⟩, ⟨?_, ?_⟩,
      (List.take_append_drop k m).symm⟩
    · exact fun c hc => h c (List.mem_of_mem_take hc)
    · rw [List.length_drop]
      omega
    · exact fun c hc => h c (List.mem_of_mem_drop hc)

end Regex

end Data
