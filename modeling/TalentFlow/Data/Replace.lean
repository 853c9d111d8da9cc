import TalentFlow.Data.Regex

/-!
# Data.Replace

Replacing every match of a pattern in a text, from left to right. At each place the matches of a
pattern are tried in the order of the backtracking matcher, and the first one that meets the
pattern's assertions is taken; where there is none the character stays.

`pieces` is the text cut into what stays and what is found. `replaceAll` puts something else in
place of what is found.

* `matchAt_eq_some`, `matchAt_eq_none`: a match at a place.
* `pieces_induction`: the induction along the cuts; `pieces_split`: the cuts after a cut.
* `pieces_append`: a text in two parts, with or without a match across.
* `render_bracketed`: what a replacement in brackets leaves.
-/

namespace Data

namespace Regex

def minLength : Regex → Nat
  | empty => 0
  | one _ => 1
  | seq r t => r.minLength + t.minLength
  | alt r t => min r.minLength t.minLength
  | star _ => 0

theorem minLength_le {r : Regex} {m : List Char} (h : r.Spells m) : r.minLength ≤ m.length := by
  induction r generalizing m with
  | empty => exact Nat.zero_le _
  | one p =>
    obtain ⟨c, -, rfl⟩ := h
    exact Nat.le_refl _
  | seq r t ihr iht =>
    obtain ⟨u, v, hu, hv, rfl⟩ := h
    rw [List.length_append]
    exact Nat.add_le_add (ihr hu) (iht hv)
  | alt r t ihr iht =>
    rcases h with h | h
    · exact (Nat.min_le_left _ _).trans (ihr h)
    · exact (Nat.min_le_right _ _).trans (iht h)
  | star r => exact Nat.zero_le _

def minLengths : List Regex → Nat
  | [] => 0
  | r :: rs => r.minLength + minLengths rs

theorem minLengths_le {rs : List Regex} {words : List (List Char)}
    (h : List.Forall₂ Spells rs words) : minLengths rs ≤ words.flatten.length := by
  induction h with
  | nil => exact Nat.le_refl _
  | cons hr _ ih =>
    rw [List.flatten_cons, List.length_append]
    exact Nat.add_le_add (minLength_le hr) ih

theorem exists_of_mem_words {rs : List Regex} {words : List (List Char)} {m : List Char}
    (h : List.Forall₂ Spells rs words) (hm : m ∈ words) : ∃ r ∈ rs, r.Spells m := by
  induction h with
  | nil => cases hm
  | cons hr _ ih =>
    rcases List.mem_cons.mp hm with rfl | hm
    · exact ⟨_, List.mem_cons_self, hr⟩
    · obtain ⟨r, hmem, hspells⟩ := ih hm
      exact ⟨r, List.mem_cons_of_mem _ hmem, hspells⟩

/-- No word has the character. -/
def avoids (d : Char) : Regex → Bool
  | empty => true
  | one p => !p d
  | seq r t => r.avoids d && t.avoids d
  | alt r t => r.avoids d && t.avoids d
  | star r => r.avoids d

theorem not_mem_of_avoids {d : Char} {r : Regex} (h : r.avoids d = true) {m : List Char}
    (hm : r.Spells m) : d ∉ m := by
  induction r generalizing m with
  | empty =>
    rw [show m = [] from hm]
    exact List.not_mem_nil
  | one p =>
    obtain ⟨c, hc, rfl⟩ := hm
    rw [List.mem_singleton]
    rintro rfl
    rw [avoids, hc] at h
    cases h
  | seq r t ihr iht =>
    obtain ⟨u, v, hu, hv, rfl⟩ := hm
    obtain ⟨hr, ht⟩ := Bool.and_eq_true_iff.mp h
    rw [List.mem_append, not_or]
    exact ⟨ihr hr hu, iht ht hv⟩
  | alt r t ihr iht =>
    obtain ⟨hr, ht⟩ := Bool.and_eq_true_iff.mp h
    rcases hm with hm | hm
    · exact ihr hr hm
    · exact iht ht hm
  | star r ih =>
    obtain ⟨us, hus, rfl⟩ := hm
    intro hmem
    obtain ⟨u, hu, hd⟩ := List.mem_flatten.mp hmem
    exact ih h (hus u hu) hd

def neverFirst (d : Char) : Regex → Bool
  | empty => true
  | one p => !p d
  | seq r t => r.neverFirst d && (0 < r.minLength || t.neverFirst d)
  | alt r t => r.neverFirst d && t.neverFirst d
  | star r => r.neverFirst d

theorem not_cons_of_neverFirst {d : Char} {r : Regex} (h : r.neverFirst d = true) {m : List Char} :
    ¬ r.Spells (d :: m) := by
  intro hm
  generalize hword : d :: m = word at hm
  induction r generalizing m word with
  | empty =>
    obtain rfl : word = [] := hm
    cases hword
  | one p =>
    obtain ⟨c, hc, rfl⟩ := hm
    obtain ⟨rfl, -⟩ := List.cons.inj hword
    rw [neverFirst, hc] at h
    cases h
  | seq r t ihr iht =>
    obtain ⟨u, v, hu, hv, rfl⟩ := hm
    obtain ⟨hr, ht⟩ := Bool.and_eq_true_iff.mp h
    cases u with
    | nil =>
      have hzero : ¬ 0 < r.minLength := Nat.not_lt.mpr (minLength_le hu)
      rw [decide_eq_false hzero, Bool.false_or] at ht
      exact iht ht v hword hv
    | cons c u =>
      obtain ⟨rfl, -⟩ := List.cons.inj hword
      exact ihr hr _ rfl hu
  | alt r t ihr iht =>
    obtain ⟨hr, ht⟩ := Bool.and_eq_true_iff.mp h
    rcases hm with hm | hm
    · exact ihr hr _ hword hm
    · exact iht ht _ hword hm
  | star r ih =>
    obtain ⟨us, hus, rfl⟩ := hm
    -- the first word of the repetition that is not empty
    induction us with
    | nil => cases hword
    | cons u us ihu =>
      cases u with
      | nil => exact ihu (fun v hv => hus v (List.mem_cons_of_mem _ hv)) hword
      | cons c u =>
        obtain ⟨rfl, -⟩ := List.cons.inj hword
        exact ih h _ rfl (hus _ List.mem_cons_self)

/-- No word of the expressions, one after the other, begins with the character. -/
def neverFirsts (d : Char) : List Regex → Bool
  | [] => true
  | r :: rs => r.neverFirst d && (0 < r.minLength || neverFirsts d rs)

theorem not_cons_of_neverFirsts {d : Char} {rs : List Regex} (h : neverFirsts d rs = true)
    {words : List (List Char)} (hwords : List.Forall₂ Spells rs words) {m : List Char} :
    words.flatten ≠ d :: m := by
  intro heq
  induction hwords with
  | nil => cases heq
  | cons hr _ ih =>
    rename_i r word rs words _
    obtain ⟨hfirst, hrest⟩ := Bool.and_eq_true_iff.mp h
    cases word with
    | nil =>
      have hzero : ¬ 0 < r.minLength := Nat.not_lt.mpr (minLength_le hr)
      rw [decide_eq_false hzero, Bool.false_or] at hrest
      exact ih hrest heq
    | cons c word =>
      obtain ⟨rfl, -⟩ := List.cons.inj heq
      exact not_cons_of_neverFirst hfirst hr

end Regex

open Regex

/-- A pattern that matches no empty text. An assertion is about what stands before a place, latest
character first, and what stands after it. -/
structure Pattern where
  /-- what matches, one part after the other -/
  parts : List Regex
  positive : 0 < minLengths parts
  start : List Char → List Char → Bool := fun _ _ => true
  stop : List Char → List Char → Bool := fun _ _ => true

structure Match where
  /-- what each part has matched -/
  words : List (List Char)
  /-- what follows -/
  rest : List Char

def Match.text (m : Match) : List Char := m.words.flatten

/-- The ways in which expressions match one after the other, in the order in which they are
tried. -/
def candidates : List Regex → List Char → List Match
  | [], s => [⟨[], s⟩]
  | r :: rs, s => (r.rests s).flatMap fun t =>
    (candidates rs t).map fun m => ⟨s.take (s.length - t.length) :: m.words, m.rest⟩

theorem mem_candidates {rs : List Regex} {s : List Char} {m : Match} :
    m ∈ candidates rs s ↔ List.Forall₂ Spells rs m.words ∧ s = m.text ++ m.rest := by
  induction rs generalizing s m with
  | nil =>
    obtain ⟨words, rest⟩ := m
    simp only [candidates, List.mem_singleton, Match.mk.injEq, List.forall₂_nil_left_iff]
    constructor
    · rintro ⟨rfl, rfl⟩
      exact ⟨rfl, rfl⟩
    · rintro ⟨rfl, rfl⟩
      exact ⟨rfl, rfl⟩
  | cons r rs ih =>
    obtain ⟨words, rest⟩ := m
    simp only [candidates, List.mem_flatMap, List.mem_map, mem_rests]
    constructor
    · rintro ⟨t, ⟨u, hu, rfl⟩, m, hm, heq⟩
      obtain ⟨hwords, rfl⟩ := ih.mp hm
      cases heq
      have htake : (u ++ (m.text ++ m.rest)).take
          ((u ++ (m.text ++ m.rest)).length - (m.text ++ m.rest).length) = u := by
        rw [List.length_append, Nat.add_sub_cancel, List.take_left']
        rfl
      rw [htake]
      exact ⟨.cons hu hwords, by simp [Match.text]⟩
    · rintro ⟨hall, rfl⟩
      cases hall with
      | cons hu hwords =>
        rename_i u words
        refine ⟨words.flatten ++ rest, ⟨u, hu, by simp [Match.text]⟩, ⟨words, rest⟩,
          ih.mpr ⟨hwords, rfl⟩, ?_⟩
        rw [Match.mk.injEq]
        refine ⟨congrArg (· :: words) ?_, rfl⟩
        simp [Match.text]

namespace Pattern

variable (p : Pattern)

/-- The match at a place: the first one that meets the assertions. -/
def matchAt (before s : List Char) : Option Match :=
  if p.start before s then
    (candidates p.parts s).find? fun m => p.stop (m.text.reverse ++ before) m.rest
  else none

/-- A match of the parts that meets the assertions. -/
structure Matches (before s : List Char) (m : Match) : Prop where
  spells : List.Forall₂ Spells p.parts m.words
  cut : s = m.text ++ m.rest
  start : p.start before s = true
  stop : p.stop (m.text.reverse ++ before) m.rest = true

variable {p} {before s : List Char} {m : Match}

theorem matchAt_eq_some (h : p.matchAt before s = some m) : p.Matches before s m := by
  unfold matchAt at h
  split at h
  · rename_i hstart
    obtain ⟨hspells, hcut⟩ := mem_candidates.mp (List.mem_of_find?_eq_some h)
    have hstop := List.find?_some h
    exact ⟨hspells, hcut, hstart, hstop⟩
  · cases h

theorem matchAt_eq_none : p.matchAt before s = none ↔ ∀ m, ¬ p.Matches before s m := by
  unfold matchAt
  constructor
  · intro h m hm
    rw [if_pos hm.start] at h
    exact List.find?_eq_none.mp h m (mem_candidates.mpr ⟨hm.spells, hm.cut⟩) hm.stop
  · intro h
    split
    · rename_i hstart
      refine List.find?_eq_none.mpr fun m hm hstop => ?_
      obtain ⟨hspells, hcut⟩ := mem_candidates.mp hm
      exact h m ⟨hspells, hcut, hstart, hstop⟩
    · rfl

theorem matchAt_of_unique (hm : p.Matches before s m)
    (huniq : ∀ m', p.Matches before s m' → m' = m) : p.matchAt before s = some m := by
  cases h : p.matchAt before s with
  | none => exact absurd hm (matchAt_eq_none.mp h m)
  | some m' => rw [huniq m' (matchAt_eq_some h)]

theorem Matches.text_ne_nil (h : p.Matches before s m) : m.text ≠ [] := by
  intro hnil
  have hle := minLengths_le h.spells
  rw [show m.words.flatten = [] from hnil] at hle
  exact absurd hle (Nat.not_le.mpr p.positive)

theorem Matches.rest_lt (h : p.Matches before s m) : m.rest.length < s.length := by
  have hpos := List.length_pos_iff.mpr h.text_ne_nil
  rw [h.cut, List.length_append]
  omega

theorem matchAt_nil : p.matchAt before [] = none := by
  refine matchAt_eq_none.mpr fun m hm => ?_
  exact hm.text_ne_nil (List.append_eq_nil_iff.mp hm.cut.symm).1

end Pattern

/-! ## Cutting a text -/

inductive Piece where
  | kept (c : Char)
  /-- what the parts have matched -/
  | found (words : List (List Char))

/-- The text that was cut into the pieces. -/
def source : List Piece → List Char
  | [] => []
  | .kept c :: ps => c :: source ps
  | .found words :: ps => words.flatten ++ source ps

@[simp] theorem source_append (ps qs : List Piece) :
    source (ps ++ qs) = source ps ++ source qs := by
  induction ps with
  | nil => rfl
  | cons q ps ih => cases q <;> simp [source, ih]

@[simp] theorem source_map_kept (cs : List Char) : source (cs.map .kept) = cs := by
  induction cs with
  | nil => rfl
  | cons c cs ih => simp [source, ih]

namespace Pattern

variable (p : Pattern)

/-- Cuts at most `n` pieces off; a text has no more pieces than characters. -/
def scan : Nat → List Char → List Char → List Piece
  | 0, _, _ => []
  | _ + 1, _, [] => []
  | n + 1, before, c :: s =>
    match p.matchAt before (c :: s) with
    | some m => .found m.words :: scan n (m.text.reverse ++ before) m.rest
    | none => .kept c :: scan n (c :: before) s

/-- The pieces of a text that stands after `before`. -/
def pieces (before s : List Char) : List Piece := p.scan s.length before s

variable {p} {before s : List Char} {m : Match}

theorem scan_eq {n : Nat} (h : s.length ≤ n) : p.scan n before s = p.pieces before s := by
  unfold pieces
  induction n using Nat.strong_induction_on generalizing before s with
  | _ n ih =>
    cases s with
    | nil => cases n <;> rfl
    | cons c s =>
      cases n with
      | zero => cases h
      | succ n =>
        rw [List.length_cons] at h ⊢
        simp only [scan]
        cases hm : p.matchAt before (c :: s) with
        | none =>
          dsimp only
          rw [ih n (Nat.lt_succ_self n) (Nat.le_of_succ_le_succ h)]
        | some m =>
          dsimp only
          have hlt : m.rest.length ≤ s.length := Nat.le_of_lt_succ (matchAt_eq_some hm).rest_lt
          rw [ih n (Nat.lt_succ_self n) (by omega)]
          by_cases heq : s.length = n
          · rw [heq, ih n (Nat.lt_succ_self n) (by omega)]
          · rw [ih s.length (by omega) hlt]

@[simp] theorem pieces_nil : p.pieces before [] = [] := rfl

theorem pieces_kept {c : Char} (h : p.matchAt before (c :: s) = none) :
    p.pieces before (c :: s) = .kept c :: p.pieces (c :: before) s := by
  unfold pieces
  simp only [List.length_cons, scan, h]

theorem pieces_found (h : p.matchAt before s = some m) :
    p.pieces before s = .found m.words :: p.pieces (m.text.reverse ++ before) m.rest := by
  cases s with
  | nil =>
    rw [matchAt_nil] at h
    cases h
  | cons c s =>
    have hlt : m.rest.length ≤ s.length := Nat.le_of_lt_succ (matchAt_eq_some h).rest_lt
    conv_lhs => unfold pieces
    simp only [List.length_cons, scan, h]
    rw [scan_eq hlt]

theorem pieces_induction {motive : List Char → List Char → Prop} (nil : ∀ before, motive before [])
    (kept : ∀ before c s, p.matchAt before (c :: s) = none → motive (c :: before) s →
      motive before (c :: s))
    (found : ∀ before s m, p.matchAt before s = some m →
      motive (m.text.reverse ++ before) m.rest → motive before s) (before s : List Char) :
    motive before s := by
  induction hn : s.length using Nat.strong_induction_on generalizing before s with
  | _ n ih =>
    cases hm : p.matchAt before s with
    | some m => exact found before s m hm (ih _ (hn ▸ (matchAt_eq_some hm).rest_lt) _ _ rfl)
    | none =>
      cases s with
      | nil => exact nil before
      | cons c s => exact kept before c s hm (ih s.length (by simp at hn; omega) _ _ rfl)

@[simp] theorem source_pieces (before s : List Char) : source (p.pieces before s) = s := by
  induction before, s using p.pieces_induction with
  | nil before => rfl
  | kept before c s h ih => rw [pieces_kept h, source, ih]
  | found before s m h ih =>
    rw [pieces_found h, source, ih]
    exact (matchAt_eq_some h).cut.symm

theorem pieces_split {ps qs : List Piece} (h : p.pieces before s = ps ++ qs) :
    p.pieces ((source ps).reverse ++ before) (source qs) = qs := by
  induction ps generalizing before s with
  | nil =>
    have hs := source_pieces (p := p) before s
    rw [h] at hs
    rw [show source qs = s from hs]
    exact h
  | cons q ps ih =>
    cases hm : p.matchAt before s with
    | some m =>
      rw [pieces_found hm, List.cons_append] at h
      obtain ⟨rfl, htail⟩ := List.cons.inj h
      rw [source, List.reverse_append, List.append_assoc]
      exact ih htail
    | none =>
      cases s with
      | nil => cases h
      | cons c s =>
        rw [pieces_kept hm, List.cons_append] at h
        obtain ⟨rfl, htail⟩ := List.cons.inj h
        rw [source, List.reverse_cons, List.append_assoc]
        exact ih htail

theorem matchAt_of_kept {ps qs : List Piece} {c : Char}
    (h : p.pieces before s = ps ++ .kept c :: qs) :
    p.matchAt ((source ps).reverse ++ before) (c :: source qs) = none := by
  have hsplit := pieces_split h
  rw [source] at hsplit
  cases hm : p.matchAt ((source ps).reverse ++ before) (c :: source qs) with
  | none => rfl
  | some m =>
    rw [pieces_found hm] at hsplit
    cases hsplit

theorem matchAt_of_found {ps qs : List Piece} {words : List (List Char)}
    (h : p.pieces before s = ps ++ .found words :: qs) :
    p.matchAt ((source ps).reverse ++ before) (words.flatten ++ source qs) =
      some ⟨words, source qs⟩ := by
  have hsplit := pieces_split h
  rw [source] at hsplit
  cases hm : p.matchAt ((source ps).reverse ++ before) (words.flatten ++ source qs) with
  | none =>
    cases hs : words.flatten ++ source qs with
    | nil =>
      rw [hs] at hsplit
      cases hsplit
    | cons c t =>
      rw [hs] at hsplit hm
      rw [pieces_kept hm] at hsplit
      cases hsplit
  | some m =>
    obtain ⟨words', rest⟩ := m
    rw [pieces_found hm] at hsplit
    obtain ⟨hwords, -⟩ := List.cons.inj hsplit
    obtain rfl := Piece.found.inj hwords
    have hcut := (matchAt_eq_some hm).cut
    rw [List.append_cancel_left hcut]

/-- A match that leaves at least the second part of a text lies in the first one. -/
theorem Matches.within {u v : List Char} (h : p.Matches before (u ++ v) m)
    (hle : v.length ≤ m.rest.length) : ∃ w, u = m.text ++ w ∧ m.rest = w ++ v := by
  rcases List.append_eq_append_iff.mp h.cut with ⟨w, hw, hv⟩ | ⟨w, hw, hrest⟩
  · have hnil : w = [] := by
      have hlen := congrArg List.length hv
      rw [List.length_append] at hlen
      exact List.length_eq_zero_iff.mp (by omega)
    subst hnil
    exact ⟨[], by simpa using hw.symm, by simpa using hv.symm⟩
  · exact ⟨w, hw, hrest⟩

/-- A text in two parts: no match goes across, or the first one that does is found. -/
theorem pieces_append (before u v : List Char) :
    (∃ ps, source ps = u ∧ p.pieces before (u ++ v) = ps ++ p.pieces (u.reverse ++ before) v) ∨
      ∃ ps u₁ u₂ m, u = u₁ ++ u₂ ∧ u₂ ≠ [] ∧ source ps = u₁ ∧
        p.matchAt (u₁.reverse ++ before) (u₂ ++ v) = some m ∧ m.rest.length < v.length ∧
        p.pieces before (u ++ v) =
          ps ++ .found m.words :: p.pieces (m.text.reverse ++ (u₁.reverse ++ before)) m.rest := by
  induction hn : u.length using Nat.strong_induction_on generalizing before u with
  | _ n ih =>
    cases u with
    | nil => exact .inl ⟨[], rfl, rfl⟩
    | cons c u =>
      cases hm : p.matchAt before (c :: u ++ v) with
      | none =>
        have hkept : p.pieces before (c :: u ++ v) =
            .kept c :: p.pieces (c :: before) (u ++ v) := pieces_kept hm
        obtain ⟨ps, hps, hcut⟩ | ⟨ps, u₁, u₂, m, rfl, hne, hps, hmatch, hlt, hcut⟩ :=
          ih u.length (by simp at hn; omega) (c :: before) u rfl
        · refine .inl ⟨.kept c :: ps, by rw [source, hps], ?_⟩
          rw [hkept, hcut]
          simp
        · refine .inr ⟨.kept c :: ps, c :: u₁, u₂, m, rfl, hne, by rw [source, hps], ?_, hlt, ?_⟩
          · simpa using hmatch
          · rw [hkept, hcut]
            simp
      | some m =>
        have hmatch := matchAt_eq_some hm
        by_cases hlt : m.rest.length < v.length
        · exact .inr ⟨[], [], c :: u, m, rfl, by simp, rfl, hm, hlt, pieces_found hm⟩
        obtain ⟨u₃, hu, hrest⟩ := hmatch.within (Nat.le_of_not_lt hlt)
        have hshort : u₃.length < n := by
          have hpos := List.length_pos_iff.mpr hmatch.text_ne_nil
          have hlen := congrArg List.length hu
          rw [List.length_append, hn] at hlen
          omega
        have hfound := pieces_found hm
        rw [hrest] at hfound
        rw [hu]
        obtain ⟨ps, rfl, hcut⟩ | ⟨ps, u₁, u₂, m', rfl, hne, rfl, hmatch', hlt', hcut⟩ :=
          ih _ hshort (m.text.reverse ++ before) u₃ rfl
        · refine .inl ⟨.found m.words :: ps, rfl, ?_⟩
          have hbefore : (source ps).reverse ++ (m.text.reverse ++ before) =
              (c :: u).reverse ++ before := by rw [hu, List.reverse_append, List.append_assoc]
          rw [← hu, hfound, hcut, hbefore]
          rfl
        · refine .inr ⟨.found m.words :: ps, m.text ++ source ps, u₂, m', by simp, hne, rfl, ?_,
            hlt', ?_⟩
          · simpa using hmatch'
          · rw [← hu, hfound, hcut]
            simp

variable (p) in
/-- The text has a match somewhere. -/
def findFrom : List Char → List Char → Bool
  | _, [] => false
  | before, c :: s => (p.matchAt before (c :: s)).isSome || findFrom (c :: before) s

variable (p) in
def find (s : List Char) : Bool := p.findFrom [] s

theorem findFrom_eq_false : p.findFrom before s = false ↔
    ∀ u v, s = u ++ v → p.matchAt (u.reverse ++ before) v = none := by
  induction s generalizing before with
  | nil =>
    refine iff_of_true rfl fun u v h => ?_
    obtain ⟨rfl, rfl⟩ := List.append_eq_nil_iff.mp h.symm
    exact matchAt_nil
  | cons c s ih =>
    rw [findFrom, Bool.or_eq_false_iff, ih, Option.isSome_eq_false_iff, Option.isNone_iff_eq_none]
    constructor
    · rintro ⟨hfirst, hrest⟩ u v h
      cases u with
      | nil =>
        rw [← show c :: s = v from h]
        exact hfirst
      | cons d u =>
        obtain ⟨rfl, rfl⟩ := List.cons.inj h
        simpa using hrest u v rfl
    · intro h
      exact ⟨h [] (c :: s) rfl, fun u v huv => by simpa using h (c :: u) v (by simp [huv])⟩

theorem find_eq_false {s : List Char} : p.find s = false ↔
    ∀ u v, s = u ++ v → p.matchAt u.reverse v = none := by
  simp [find, findFrom_eq_false]

end Pattern

/-! ## Replacing -/

/-- The text with `f` in place of what is found. -/
def render (f : List (List Char) → List Char) : List Piece → List Char
  | [] => []
  | .kept c :: ps => c :: render f ps
  | .found words :: ps => f words ++ render f ps

section Render

variable {f : List (List Char) → List Char} {ps qs : List Piece}

@[simp] theorem render_append : render f (ps ++ qs) = render f ps ++ render f qs := by
  induction ps with
  | nil => rfl
  | cons q ps ih => cases q <;> simp [render, ih]

@[simp] theorem render_map_kept (cs : List Char) : render f (cs.map .kept) = cs := by
  induction cs with
  | nil => rfl
  | cons c cs ih => simp [render, ih]

theorem render_cut {u v : List Char} {c : Char} (h : render f ps = u ++ c :: v) :
    (∃ ps₁ ps₂, ps = ps₁ ++ .kept c :: ps₂ ∧ render f ps₁ = u ∧ render f ps₂ = v) ∨
      ∃ ps₁ words ps₂ x y, ps = ps₁ ++ .found words :: ps₂ ∧ f words = x ++ c :: y ∧
        u = render f ps₁ ++ x ∧ v = y ++ render f ps₂ := by
  induction ps generalizing u with
  | nil => simp [render] at h
  | cons q ps ih =>
    cases q with
    | kept d =>
      cases u with
      | nil =>
        obtain ⟨rfl, rfl⟩ := List.cons.inj h
        exact .inl ⟨[], ps, rfl, rfl, rfl⟩
      | cons d' u =>
        obtain ⟨rfl, htail⟩ := List.cons.inj h
        obtain ⟨ps₁, ps₂, rfl, rfl, rfl⟩ | ⟨ps₁, words, ps₂, x, y, rfl, hf, rfl, rfl⟩ := ih htail
        · exact .inl ⟨.kept d :: ps₁, ps₂, rfl, rfl, rfl⟩
        · exact .inr ⟨.kept d :: ps₁, words, ps₂, x, y, rfl, hf, rfl, rfl⟩
    | found words =>
      rw [render] at h
      rcases List.append_eq_append_iff.mp h with ⟨w, rfl, hw⟩ | ⟨w, hf, hw⟩
      · obtain ⟨ps₁, ps₂, rfl, rfl, rfl⟩ | ⟨ps₁, words', ps₂, x, y, rfl, hf, rfl, rfl⟩ := ih hw
        · exact .inl ⟨.found words :: ps₁, ps₂, rfl, rfl, rfl⟩
        · exact .inr ⟨.found words :: ps₁, words', ps₂, x, y, rfl, hf, by simp [render], rfl⟩
      · cases w with
        | nil =>
          have hw' : render f ps = [] ++ c :: v := by simpa using hw.symm
          obtain ⟨ps₁, ps₂, rfl, hu, rfl⟩ | ⟨ps₁, words', ps₂, x, y, rfl, hf', hu, rfl⟩ := ih hw'
          · exact .inl ⟨.found words :: ps₁, ps₂, rfl, by simp [render, hu, hf], rfl⟩
          · exact .inr ⟨.found words :: ps₁, words', ps₂, x, y, rfl, hf',
              by simp [render, hf, ← hu], rfl⟩
        | cons d w =>
          obtain ⟨rfl, rfl⟩ := List.cons.inj hw
          exact .inr ⟨[], words, ps, u, w, rfl, hf, rfl, rfl⟩

/-- A text without the first character of the replacements stands where it stood. -/
theorem prefix_render {l : Char} (hf : ∀ words, ∃ t, f words = l :: t) {m : List Char} (hl : l ∉ m)
    (h : m <+: render f ps) : ∃ qs, ps = m.map .kept ++ qs := by
  induction m generalizing ps with
  | nil => exact ⟨ps, rfl⟩
  | cons c m ih =>
    obtain ⟨hc, hm⟩ := not_or.mp fun hmem => hl (List.mem_cons.mpr hmem)
    cases ps with
    | nil => simp [render] at h
    | cons q ps =>
      cases q with
      | kept d =>
        obtain ⟨rfl, htail⟩ := List.cons_prefix_cons.mp h
        obtain ⟨qs, rfl⟩ := ih hm htail
        exact ⟨qs, rfl⟩
      | found words =>
        obtain ⟨t, ht⟩ := hf words
        rw [render, ht, List.cons_append, List.cons_prefix_cons] at h
        exact absurd h.1.symm hc

end Render

/-- The replacement `[name]`. -/
def bracketed (name : List Char) (_ : List (List Char)) : List Char := '[' :: name ++ [']']

theorem prefix_of_not_mem {d : Char} {m v w t : List Char} (hd : d ∉ m)
    (h : m ++ v = w ++ d :: t) : m <+: w := by
  rcases List.append_eq_append_iff.mp h with ⟨u, rfl, -⟩ | ⟨u, rfl, hu⟩
  · exact List.prefix_append _ _
  · cases u with
    | nil => simp
    | cons e u =>
      obtain ⟨rfl, -⟩ := List.cons.inj hu
      exact absurd (by simp) hd

/-- A text without brackets in the new text is one of the old text, or part of the name. -/
theorem render_bracketed {name m u v : List Char} {ps : List Piece} (hm : m ≠ []) (hopen : '[' ∉ m)
    (hclose : ']' ∉ m) (h : render (bracketed name) ps = u ++ m ++ v) :
    (∃ ps₁ ps₂, ps = ps₁ ++ m.map .kept ++ ps₂ ∧ render (bracketed name) ps₁ = u ∧
      render (bracketed name) ps₂ = v) ∨ m <:+: name := by
  cases m with
  | nil => exact absurd rfl hm
  | cons c m =>
    rw [List.append_assoc, List.cons_append] at h
    obtain ⟨ps₁, ps₂, rfl, hu, hv⟩ | ⟨ps₁, words, ps₂, x, y, rfl, hf, -, hv⟩ := render_cut h
    · obtain ⟨hc, hmem⟩ := not_or.mp fun hmem => hopen (List.mem_cons.mpr hmem)
      obtain ⟨qs, rfl⟩ := prefix_render (fun words => ⟨_, rfl⟩) hmem ⟨v, hv.symm⟩
      rw [render_append, render_map_kept] at hv
      exact .inl ⟨ps₁, qs, by simp, hu, List.append_cancel_left hv⟩
    · right
      -- the word starts in the brackets, and ends before the closing one
      cases x with
      | nil =>
        obtain ⟨rfl, -⟩ := List.cons.inj hf
        exact absurd List.mem_cons_self hopen
      | cons d x =>
        obtain ⟨-, hf⟩ := List.cons.inj hf
        rcases List.append_eq_append_iff.mp hf with ⟨w, hx, hw⟩ | ⟨w, hname, hw⟩
        · cases w with
          | nil =>
            obtain ⟨rfl, -⟩ := List.cons.inj hw
            exact absurd List.mem_cons_self hclose
          | cons d' w =>
            obtain ⟨-, hw⟩ := List.cons.inj hw
            exact absurd hw (by simp)
        · cases w with
          | nil =>
            obtain ⟨rfl, -⟩ := List.cons.inj hw
            exact absurd List.mem_cons_self hclose
          | cons d' w =>
            obtain ⟨rfl, rfl⟩ := List.cons.inj hw
            have hv' : m ++ v = w ++ (']' :: render (bracketed name) ps₂) := by
              rw [hv]
              exact List.append_assoc w [']'] _
            have hnot : ']' ∉ m := fun hmem => hclose (List.mem_cons_of_mem _ hmem)
            obtain ⟨t, rfl⟩ := prefix_of_not_mem hnot hv'
            exact ⟨x, t, by simp [hname]⟩

namespace Pattern

/-- `f` in place of every match. -/
def replaceAll (p : Pattern) (f : List (List Char) → List Char) (s : List Char) : List Char :=
  render f (p.pieces [] s)

variable {p : Pattern} {f : List (List Char) → List Char} {before s : List Char}

theorem pieces_of_findFrom (h : p.findFrom before s = false) : p.pieces before s = s.map .kept := by
  induction s generalizing before with
  | nil => rfl
  | cons c s ih =>
    rw [findFrom, Bool.or_eq_false_iff, Option.isSome_eq_false_iff, Option.isNone_iff_eq_none] at h
    rw [pieces_kept h.1, ih h.2, List.map_cons]

theorem replaceAll_of_find (h : p.find s = false) : p.replaceAll f s = s := by
  rw [replaceAll, pieces_of_findFrom h, render_map_kept]

/-- A replacement that keeps a character keeps all of them. -/
theorem count_le_replaceAll {d : Char}
    (h : ∀ words, List.Forall₂ Spells p.parts words → words.flatten.count d ≤ (f words).count d)
    (s : List Char) : s.count d ≤ (p.replaceAll f s).count d := by
  suffices hpieces : ∀ before, s.count d ≤ (render f (p.pieces before s)).count d from hpieces []
  intro before
  induction before, s using p.pieces_induction with
  | nil before => exact Nat.le_refl _
  | kept before c s hnone ih =>
    rw [pieces_kept hnone, render, List.count_cons, List.count_cons]
    exact Nat.add_le_add_right ih _
  | found before s m hm ih =>
    have hmatch := matchAt_eq_some hm
    rw [pieces_found hm, render, List.count_append]
    conv_lhs => rw [hmatch.cut, List.count_append]
    exact Nat.add_le_add (h m.words hmatch.spells) ih

/-! ### Patterns without assertions -/

variable (p) in
/-- A match of the parts, wherever it stands. -/
def IsWord (m : List Char) : Prop := ∃ words, List.Forall₂ Spells p.parts words ∧ m = words.flatten

variable (p) in
def bare : Pattern where
  parts := p.parts
  positive := p.positive

variable (p) in
/-- A match may stand anywhere. -/
structure Free : Prop where
  start : ∀ before s, p.start before s = true
  stop : ∀ before s, p.stop before s = true

theorem Free.matchAt (hp : p.Free) (before before' s : List Char) :
    p.matchAt before s = p.matchAt before' s := by
  simp only [Pattern.matchAt, hp.start, hp.stop]

theorem Free.pieces (hp : p.Free) (before before' s : List Char) :
    p.pieces before s = p.pieces before' s := by
  induction before, s using p.pieces_induction generalizing before' with
  | nil before => rfl
  | kept before c s h ih =>
    rw [pieces_kept h, pieces_kept (hp.matchAt before before' (c :: s) ▸ h), ih]
  | found before s m h ih =>
    have h' : p.matchAt before' s = some m := hp.matchAt before before' s ▸ h
    rw [pieces_found h, pieces_found h', ih (m.text.reverse ++ before')]

theorem bare_free : p.bare.Free := ⟨fun _ _ => rfl, fun _ _ => rfl⟩

theorem Matches.isWord {m : Match} (h : p.Matches before s m) : p.IsWord m.text :=
  ⟨m.words, h.spells, rfl⟩

theorem IsWord.ne_nil {m : List Char} (h : p.IsWord m) : m ≠ [] := by
  obtain ⟨words, hspells, rfl⟩ := h
  intro hnil
  have hle := minLengths_le hspells
  rw [hnil] at hle
  exact absurd hle (Nat.not_le.mpr p.positive)

theorem matchAt_of_no_start {c : Char} (h : ∀ t, ¬ p.IsWord (c :: t)) :
    p.matchAt before (c :: s) = none := by
  refine matchAt_eq_none.mpr fun m hm => ?_
  cases htext : m.text with
  | nil => exact hm.text_ne_nil htext
  | cons d t =>
    have hcut := hm.cut
    rw [htext] at hcut
    obtain ⟨rfl, -⟩ := List.cons.inj hcut
    exact h t (htext ▸ hm.isWord)

theorem pieces_of_no_start {k v : List Char} (h : ∀ c ∈ k, ∀ t, ¬ p.IsWord (c :: t)) :
    p.pieces before (k ++ v) = k.map .kept ++ p.pieces (k.reverse ++ before) v := by
  induction k generalizing before with
  | nil => rfl
  | cons c k ih =>
    have hkept : p.pieces before (c :: k ++ v) = .kept c :: p.pieces (c :: before) (k ++ v) :=
      pieces_kept (matchAt_of_no_start (h c List.mem_cons_self))
    rw [hkept, ih fun d hd => h d (List.mem_cons_of_mem c hd)]
    simp

/-- A character that is in no word is kept, and no match goes across. -/
theorem pieces_across {u v : List Char} {d : Char} (h : ∀ m, p.IsWord m → d ∉ m) :
    ∃ ps, source ps = u ∧
      p.pieces before (u ++ d :: v) = ps ++ .kept d :: p.pieces (d :: (u.reverse ++ before)) v := by
  obtain ⟨ps, hps, hcut⟩ | ⟨ps, u₁, u₂, m, -, -, -, hm, hlt, -⟩ :=
    pieces_append (p := p) before u (d :: v)
  · refine ⟨ps, hps, ?_⟩
    rw [hcut, pieces_kept (matchAt_of_no_start fun t ht => h _ ht List.mem_cons_self)]
  · -- the match would reach beyond the character
    have hmatch := matchAt_eq_some hm
    have hsuffix : m.rest <:+ v := by
      refine List.suffix_of_suffix_length_le ⟨m.text, hmatch.cut.symm⟩ ⟨u₂ ++ [d], ?_⟩
        (Nat.le_of_lt_succ hlt)
      simp
    obtain ⟨w, rfl⟩ := hsuffix
    refine absurd ?_ (h m.text hmatch.isWord)
    have htext : u₂ ++ d :: w = m.text := by
      have hcut := hmatch.cut
      rw [← List.cons_append, ← List.append_assoc] at hcut
      exact List.append_cancel_right hcut
    rw [← htext]
    simp

theorem not_isWord_cons {c : Char} {t : List Char} (hc : neverFirsts c p.parts = true) :
    ¬ p.IsWord (c :: t) := by
  rintro ⟨words, hspells, htext⟩
  exact not_cons_of_neverFirsts hc hspells htext.symm

theorem IsWord.not_mem {m : List Char} (h : p.IsWord m) {d : Char}
    (hd : p.parts.all (·.avoids d) = true) : d ∉ m := by
  obtain ⟨words, hspells, rfl⟩ := h
  intro hmem
  obtain ⟨word, hword, hdw⟩ := List.mem_flatten.mp hmem
  obtain ⟨r, hr, hrw⟩ := exists_of_mem_words hspells hword
  exact not_mem_of_avoids (List.all_eq_true.mp hd r hr) hrw hdw

theorem Free.find_eq_false (hp : p.Free) {s : List Char} :
    p.find s = false ↔ ∀ m, p.IsWord m → ¬ m <:+: s := by
  rw [Pattern.find_eq_false]
  constructor
  · rintro h _ ⟨words, hspells, rfl⟩ ⟨u, v, rfl⟩
    exact matchAt_eq_none.mp (h u (words.flatten ++ v) (List.append_assoc _ _ _)) ⟨words, v⟩
      ⟨hspells, rfl, hp.start _ _, hp.stop _ _⟩
  · rintro h u v rfl
    refine matchAt_eq_none.mpr fun m hm => ?_
    exact h m.text ⟨m.words, hm.spells, rfl⟩ ⟨u, m.rest, by rw [List.append_assoc, ← hm.cut]⟩

/-- What no replacement in brackets can bring into a text: words without brackets that are not
part of the name. -/
structure Clear (q : Pattern) (name : List Char) : Prop where
  free : q.Free
  opening : q.parts.all (·.avoids '[') = true
  closing : q.parts.all (·.avoids ']') = true
  name : q.find name = false

variable {q : Pattern} {name : List Char}

theorem Clear.word_kept (hq : q.Clear name) {m : List Char} (hm : q.IsWord m)
    (h : m <:+: p.replaceAll (bracketed name) s) :
    ∃ ps₁ ps₂, p.pieces [] s = ps₁ ++ m.map .kept ++ ps₂ := by
  obtain ⟨u, v, h⟩ := h
  obtain ⟨ps₁, ps₂, hcut, -, -⟩ | hname :=
    render_bracketed hm.ne_nil (hm.not_mem hq.opening) (hm.not_mem hq.closing) h.symm
  · exact ⟨ps₁, ps₂, hcut⟩
  · exact absurd hname (hq.free.find_eq_false.mp hq.name m hm)

theorem Clear.find_replaceAll (hq : q.Clear name) (h : q.find s = false) :
    q.find (p.replaceAll (bracketed name) s) = false := by
  rw [hq.free.find_eq_false] at h ⊢
  intro m hm hmem
  obtain ⟨ps₁, ps₂, hcut⟩ := hq.word_kept hm hmem
  have hs := source_pieces (p := p) [] s
  rw [hcut, source_append, source_append, source_map_kept] at hs
  exact h m hm ⟨_, _, hs⟩

/-- Nothing that was to be replaced is left. -/
theorem Clear.find_replaced (hp : p.Clear name) :
    p.find (p.replaceAll (bracketed name) s) = false := by
  rw [hp.free.find_eq_false]
  intro m hm hmem
  obtain ⟨ps₁, ps₂, hcut⟩ := hp.word_kept hm hmem
  cases m with
  | nil => exact hm.ne_nil rfl
  | cons c m =>
    rw [List.append_assoc, List.map_cons, List.cons_append] at hcut
    have hnone := matchAt_of_kept hcut
    rw [source_append, source_map_kept] at hnone
    obtain ⟨words, hspells, hwords⟩ := hm
    refine matchAt_eq_none.mp hnone ⟨words, source ps₂⟩
      ⟨hspells, ?_, hp.free.start _ _, hp.free.stop _ _⟩
    rw [Match.text, ← hwords, List.cons_append]

end Pattern

end Data
