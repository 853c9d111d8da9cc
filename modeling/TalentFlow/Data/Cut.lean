import TalentFlow.Data.Replace

/-!
# Data.Cut

Where a pattern cuts a text, without the characters themselves.

A pattern does not tell characters apart that are in the same classes. So a text has the same cut
when such characters are exchanged in it, and what a replacement makes of the two texts differs in
the characters that stay at most.

* `pieces_map_append`: other characters of the same classes, and a text that no match reaches.
* `replaceAll_append`, `replaceAll_append'`: two texts with a character between them that is in no
  match.
* `fill_eq_iff`: when two texts with the same cut become the same.
-/

namespace Data

namespace Regex

/-- Every character class of the expression. -/
def Each (P : (Char → Bool) → Prop) : Regex → Prop
  | empty => True
  | one p => P p
  | seq r t => r.Each P ∧ t.Each P
  | alt r t => r.Each P ∧ t.Each P
  | star r => r.Each P

theorem each_of_forall {P : (Char → Bool) → Prop} (h : ∀ p, P p) (r : Regex) : r.Each P := by
  induction r with
  | empty => trivial
  | one p => exact h p
  | seq r t ihr iht => exact ⟨ihr, iht⟩
  | alt r t ihr iht => exact ⟨ihr, iht⟩
  | star r ih => exact ih

theorem Each.mono {P Q : (Char → Bool) → Prop} (h : ∀ p, P p → Q p) {r : Regex} (hr : r.Each P) :
    r.Each Q := by
  induction r with
  | empty => trivial
  | one p => exact h p hr
  | seq r t ihr iht => exact ⟨ihr hr.1, iht hr.2⟩
  | alt r t ihr iht => exact ⟨ihr hr.1, iht hr.2⟩
  | star r ih => exact ih hr

theorem Each.opt {P : (Char → Bool) → Prop} {r : Regex} (hr : r.Each P) : r.opt.Each P :=
  ⟨hr, trivial⟩

theorem Each.times {P : (Char → Bool) → Prop} {r : Regex} (hr : r.Each P) (n : Nat) :
    (Regex.times n r).Each P := by
  induction n with
  | zero => trivial
  | succ n ih => exact ⟨hr, ih⟩

theorem Each.between {P : (Char → Bool) → Prop} {r : Regex} (hr : r.Each P) (m n : Nat) :
    (Regex.between m n r).Each P := by
  refine ⟨hr.times m, ?_⟩
  induction n - m with
  | zero => trivial
  | succ k ih => exact ⟨⟨hr, ih⟩, trivial⟩

theorem each_of_avoids {d : Char} {r : Regex} (h : r.avoids d = true) :
    r.Each fun p => p d = false := by
  induction r with
  | empty => trivial
  | one p => exact (Bool.not_eq_true' (p d)).mp h
  | seq r t ihr iht =>
    obtain ⟨hr, ht⟩ := Bool.and_eq_true_iff.mp h
    exact ⟨ihr hr, iht ht⟩
  | alt r t ihr iht =>
    obtain ⟨hr, ht⟩ := Bool.and_eq_true_iff.mp h
    exact ⟨ihr hr, iht ht⟩
  | star r ih => exact ih h

theorem greedy_eq {step : List Char → List (List Char)} {n : Nat} {s : List Char}
    (hn : s.length ≤ n) : greedy step n s = greedy step s.length s := by
  induction n using Nat.strong_induction_on generalizing s with
  | _ n ih =>
    cases n with
    | zero => rw [Nat.le_zero.mp hn]
    | succ n =>
      cases hs : s.length with
      | zero => simp [greedy, hs]
      | succ l =>
        -- a step leaves less than the text, and as much fuel as that
        have hsteps : ∀ t ∈ (step s).filter fun t => t.length < s.length,
            greedy step n t = greedy step l t := by
          intro t ht
          have hlt : t.length < s.length := by simpa using (List.mem_filter.mp ht).2
          rw [ih n (Nat.lt_succ_self n) (by omega), ih l (by omega) (by omega)]
        simp only [greedy]
        rw [List.flatMap_congr hsteps]

section Change

variable {g : Char → Char} {e : List Char}

theorem greedy_map_append {step step' : List Char → List (List Char)}
    (h : ∀ s, step' (s.map g ++ e) = (step s).map fun t => t.map g ++ e) (n : Nat) (s : List Char) :
    greedy step' n (s.map g ++ e) = (greedy step n s).map fun t => t.map g ++ e := by
  induction n generalizing s with
  | zero => rfl
  | succ n ih =>
    have hlt : ((fun t : List Char => decide (t.length < (s.map g ++ e).length)) ∘
        fun t : List Char => t.map g ++ e) = fun t => decide (t.length < s.length) := by
      funext t
      simp
    simp only [greedy, h, List.filter_map, hlt, List.flatMap_map, ih, List.map_append,
      List.map_flatMap, List.map_cons, List.map_nil]

/-- A class that takes `c` and `g c` alike and does not take the first character of `e`. -/
def Alike (g : Char → Char) (e : List Char) (p : Char → Bool) : Prop :=
  (∀ c, p (g c) = p c) ∧ ∀ d ∈ e.head?, p d = false

theorem rests_map_append {r : Regex} (h : r.Each (Alike g e)) (s : List Char) :
    r.rests (s.map g ++ e) = (r.rests s).map fun t => t.map g ++ e := by
  induction r generalizing s with
  | empty => rfl
  | one p =>
    obtain ⟨hg, he⟩ := h
    cases s with
    | nil =>
      cases e with
      | nil => rfl
      | cons d e => simp [rests, he d rfl]
    | cons c s =>
      simp only [List.map_cons, List.cons_append, rests, hg]
      split
      · rfl
      · rfl
  | seq r t ihr iht =>
    simp only [rests, ihr h.1, List.flatMap_map, iht h.2, List.map_flatMap]
  | alt r t ihr iht => simp only [rests, ihr h.1, iht h.2, List.map_append]
  | star r ih =>
    simp only [rests]
    rw [greedy_map_append (ih h), greedy_eq (by simp)]

end Change

end Regex

open Regex

section Change

variable {g : Char → Char} {e : List Char}

def Match.change (g : Char → Char) (e : List Char) (m : Match) : Match where
  words := m.words.map (List.map g)
  rest := m.rest.map g ++ e

theorem Match.text_change {m : Match} : (m.change g e).text = m.text.map g := by
  simp [Match.text, Match.change]

def Piece.change (g : Char → Char) : Piece → Piece
  | .kept c => .kept (g c)
  | .found words => .found (words.map (List.map g))

theorem candidates_map_append {rs : List Regex} (h : ∀ r ∈ rs, r.Each (Alike g e))
    (s : List Char) : candidates rs (s.map g ++ e) = (candidates rs s).map (Match.change g e) := by
  induction rs generalizing s with
  | nil => rfl
  | cons r rs ih =>
    have hr := h r List.mem_cons_self
    have hrs := ih fun t ht => h t (List.mem_cons_of_mem r ht)
    simp only [candidates, rests_map_append hr, List.flatMap_map, hrs, List.map_flatMap,
      List.map_map]
    refine List.flatMap_congr fun t ht => List.map_congr_left fun m _ => ?_
    obtain ⟨u, -, rfl⟩ := (mem_rests r s t).mp ht
    simp [Match.change]

namespace Pattern

variable {p : Pattern} {before s : List Char}

/-- Neither the classes nor the assertions of the pattern see the change. -/
structure Blind (p : Pattern) (g : Char → Char) (e : List Char) : Prop where
  parts : ∀ r ∈ p.parts, r.Each (Alike g e)
  start : ∀ before s, p.start (before.map g) (s.map g ++ e) = p.start before s
  stop : ∀ before s, p.stop (before.map g) (s.map g ++ e) = p.stop before s

theorem matchAt_map_append (h : p.Blind g e) :
    p.matchAt (before.map g) (s.map g ++ e) = (p.matchAt before s).map (Match.change g e) := by
  unfold matchAt
  rw [h.start, candidates_map_append h.parts]
  split
  · rw [List.find?_map]
    refine congrArg (Option.map _) (congrArg (List.find? · _) (funext fun m => ?_))
    have hbefore : (m.change g e).text.reverse ++ before.map g =
        (m.text.reverse ++ before).map g := by
      rw [Match.text_change, List.map_append, List.map_reverse]
    rw [Function.comp_apply, hbefore]
    exact h.stop _ _
  · rfl

/-- The changed text is cut where the text is cut, and what follows it is cut on its own. -/
theorem pieces_map_append (h : p.Blind g e) (before s : List Char) :
    p.pieces (before.map g) (s.map g ++ e) =
      (p.pieces before s).map (Piece.change g) ++ p.pieces ((s.reverse ++ before).map g) e := by
  induction before, s using p.pieces_induction with
  | nil before => rfl
  | kept before c s hnone ih =>
    have hchanged : p.matchAt (before.map g) (g c :: (s.map g ++ e)) = none := by
      have hmatch := @matchAt_map_append g e p before (c :: s) h
      rw [hnone] at hmatch
      exact hmatch
    rw [List.map_cons] at ih
    rw [List.map_cons, List.cons_append, pieces_kept hchanged, ih, pieces_kept hnone]
    simp [Piece.change]
  | found before s m hm ih =>
    have hchanged : p.matchAt (before.map g) (s.map g ++ e) = some (m.change g e) := by
      rw [matchAt_map_append h, hm]
      rfl
    have hbefore : (m.change g e).text.reverse ++ before.map g =
        (m.text.reverse ++ before).map g := by
      rw [Match.text_change, List.map_append, List.map_reverse]
    have hs := (matchAt_eq_some hm).cut
    rw [pieces_found hchanged, hbefore, pieces_found hm]
    show _ :: p.pieces _ (m.rest.map g ++ e) = _
    rw [ih]
    conv_rhs => rw [hs]
    simp [Piece.change, Match.change]

theorem isWord_map (h : p.Blind g []) : p.IsWord (s.map g) ↔ p.IsWord s := by
  have hword : ∀ t, p.IsWord t ↔ ∃ m ∈ candidates p.parts t, m.rest = [] := by
    intro t
    constructor
    · rintro ⟨words, hspells, rfl⟩
      exact ⟨⟨words, []⟩, mem_candidates.mpr ⟨hspells, (List.append_nil _).symm⟩, rfl⟩
    · rintro ⟨⟨words, rest⟩, hm, rfl⟩
      obtain ⟨hspells, hcut⟩ := mem_candidates.mp hm
      exact ⟨words, hspells, hcut.trans (List.append_nil _)⟩
  have hcandidates := candidates_map_append h.parts s
  rw [List.append_nil] at hcandidates
  rw [hword, hword, hcandidates]
  simp [Match.change]

end Pattern

end Change

namespace Pattern

variable {p : Pattern} {f : List (List Char) → List Char} {u v : List Char}

theorem Free.blind_append (hp : p.Free)
    (hv : ∀ d ∈ v.head?, p.parts.all (·.avoids d) = true) : p.Blind id v where
  parts := by
    intro r hr
    cases v with
    | nil =>
      exact each_of_forall (fun q => ⟨fun c => rfl, by simp⟩) r
    | cons d v =>
      have havoids := List.all_eq_true.mp (hv d rfl) r hr
      refine (each_of_avoids havoids).mono fun q hq => ⟨fun c => rfl, ?_⟩
      intro d' hd'
      obtain rfl := Option.some.inj hd'
      exact hq
  start := fun before s => by rw [hp.start, hp.start]
  stop := fun before s => by rw [hp.stop, hp.stop]

theorem Free.pieces_append (hp : p.Free)
    (hv : ∀ d ∈ v.head?, p.parts.all (·.avoids d) = true) (u : List Char) :
    p.pieces [] (u ++ v) = p.pieces [] u ++ p.pieces [] v := by
  have hchange := pieces_map_append (hp.blind_append hv) [] u
  have hid : Piece.change id = id := by
    funext q
    cases q with
    | kept c => rfl
    | found words => simp [Piece.change]
  rw [hid, List.map_id, List.map_id, List.map_id] at hchange
  rw [show p.pieces [] (u ++ v) = _ from hchange, hp.pieces _ [] v]

/-- A text that begins with a character of no match is replaced on its own. -/
theorem replaceAll_append (hp : p.Free)
    (hv : ∀ d ∈ v.head?, p.parts.all (·.avoids d) = true) (u : List Char) :
    p.replaceAll f (u ++ v) = p.replaceAll f u ++ p.replaceAll f v := by
  rw [replaceAll, hp.pieces_append hv, render_append]
  rfl

theorem replaceAll_cons (hp : p.Free) {d : Char} (hd : p.parts.all (·.avoids d) = true)
    (s : List Char) : p.replaceAll f (d :: s) = d :: p.replaceAll f s := by
  have hnone : p.matchAt [] (d :: s) = none :=
    matchAt_of_no_start fun t ht => ht.not_mem hd List.mem_cons_self
  rw [replaceAll, pieces_kept hnone, render, hp.pieces [d] []]
  rfl

theorem replaceAll_append' (hp : p.Free)
    (hu : ∀ d ∈ u.getLast?, p.parts.all (·.avoids d) = true) (v : List Char) :
    p.replaceAll f (u ++ v) = p.replaceAll f u ++ p.replaceAll f v := by
  cases u using List.reverseRecOn with
  | nil => rfl
  | append_singleton u d =>
    have hd : p.parts.all (·.avoids d) = true := hu d (by simp)
    have hnil : p.replaceAll f [] = [] := rfl
    rw [List.append_assoc, List.singleton_append,
      replaceAll_append hp (by simpa using hd), replaceAll_append hp (by simpa using hd),
      replaceAll_cons hp hd, replaceAll_cons hp hd, hnil]
    simp

theorem head?_replaceAll (hp : p.Free) (hu : ∀ d ∈ u.head?, p.parts.all (·.avoids d) = true) :
    (p.replaceAll f u).head? = u.head? := by
  cases u with
  | nil => rfl
  | cons d u =>
    rw [replaceAll_cons hp (hu d rfl)]
    rfl

theorem getLast?_replaceAll (hp : p.Free)
    (hu : ∀ d ∈ u.getLast?, p.parts.all (·.avoids d) = true) :
    (p.replaceAll f u).getLast? = u.getLast? := by
  cases u using List.reverseRecOn with
  | nil => rfl
  | append_singleton u d =>
    have hd : p.parts.all (·.avoids d) = true := hu d (by simp)
    have hnil : p.replaceAll f [] = [] := rfl
    rw [replaceAll_append hp (by simpa using hd), replaceAll_cons hp hd, hnil]
    simp

end Pattern

/-! ## Cuts -/

/-- What becomes of the characters of a text: one stays, or so many are replaced together. -/
abbrev Cut := List (Option Nat)

def Piece.size : Piece → Option Nat
  | .kept _ => none
  | .found words => some words.flatten.length

/-- Where the pattern cuts the text. -/
def Pattern.cut (p : Pattern) (before s : List Char) : Cut := (p.pieces before s).map Piece.size

/-- The text with `new` for everything that is replaced. -/
def fill (new : List Char) : Cut → List Char → List Char
  | [], _ => []
  | none :: cut, s => s.take 1 ++ fill new cut (s.drop 1)
  | some n :: cut, s => new ++ fill new cut (s.drop n)

def stays : Cut → Nat → Bool
  | [], _ => false
  | none :: _, 0 => true
  | none :: cut, i + 1 => stays cut i
  | some n :: cut, i => n ≤ i && stays cut (i - n)

section Cut

variable {new : List Char} {cut : Cut} {s t : List Char}

theorem render_eq_fill (ps : List Piece) :
    render (fun _ => new) ps = fill new (ps.map Piece.size) (source ps) := by
  induction ps with
  | nil => rfl
  | cons q ps ih => cases q <;> simp [render, fill, source, Piece.size, ih]

theorem Pattern.replaceAll_eq_fill (p : Pattern) (s : List Char) :
    p.replaceAll (fun _ => new) s = fill new (p.cut [] s) s := by
  rw [replaceAll, render_eq_fill, source_pieces]
  rfl

theorem stays_append (ps : List Piece) (rest : Cut) (i : Nat) :
    stays (ps.map Piece.size ++ rest) ((source ps).length + i) = stays rest i := by
  induction ps with
  | nil => simp [source]
  | cons q ps ih =>
    cases q with
    | kept c =>
      rw [source, List.length_cons, Nat.add_right_comm]
      exact ih
    | found words =>
      rw [source, List.length_append, Nat.add_assoc]
      show (decide _ && stays (ps.map Piece.size ++ rest) _) = _
      rw [decide_eq_true (Nat.le_add_right _ _), Nat.add_sub_cancel_left, ih]
      rfl

theorem stays_kept {k : List Char} {i : Nat} (hi : i < k.length) (rest : Cut) :
    stays ((k.map Piece.kept).map Piece.size ++ rest) i = true := by
  induction k generalizing i with
  | nil => cases hi
  | cons c k ih =>
    cases i with
    | zero => rfl
    | succ i => exact ih (Nat.lt_of_succ_lt_succ hi)

/-- The cut does not depend on characters that the pattern does not tell apart. -/
theorem Pattern.cut_map {p : Pattern} {g : Char → Char} (h : p.Blind g []) (before s : List Char) :
    p.cut (before.map g) (s.map g) = p.cut before s := by
  have hpieces := pieces_map_append h before s
  rw [List.append_nil, pieces_nil, List.append_nil] at hpieces
  rw [cut, hpieces, List.map_map, cut]
  refine List.map_congr_left fun q _ => ?_
  cases q with
  | kept c => rfl
  | found words => simp [Piece.change, Piece.size, List.map_map, Function.comp_def]

theorem fill_map {g : Char → Char} (hnew : new.map g = new) (cut : Cut) (s : List Char) :
    fill new cut (s.map g) = (fill new cut s).map g := by
  induction cut generalizing s with
  | nil => rfl
  | cons n cut ih =>
    cases n with
    | none => rw [fill, ← List.map_take, ← List.map_drop, ih, ← List.map_append, fill]
    | some n => rw [fill, ← List.map_drop, ih, fill, List.map_append, hnew]

theorem fill_forall₂ {R : Char → Char → Prop} (hR : ∀ c, R c c) (h : List.Forall₂ R s t)
    (cut : Cut) : List.Forall₂ R (fill new cut s) (fill new cut t) := by
  have hnew : List.Forall₂ R new new := List.forall₂_same.mpr fun c _ => hR c
  induction cut generalizing s t with
  | nil => exact .nil
  | cons n cut ih =>
    cases n with
    | none => exact List.rel_append (List.forall₂_take 1 h) (ih (List.forall₂_drop 1 h))
    | some n => exact List.rel_append hnew (ih (List.forall₂_drop n h))

/-- Two texts become the same when they have the same characters where something stays. -/
theorem fill_eq_iff (hlen : s.length = t.length) :
    fill new cut s = fill new cut t ↔ ∀ i, stays cut i = true → s[i]? = t[i]? := by
  induction cut generalizing s t with
  | nil => simp [fill, stays]
  | cons n cut ih =>
    cases n with
    | none =>
      have hcut : fill new (none :: cut) s = fill new (none :: cut) t ↔
          s.take 1 = t.take 1 ∧ fill new cut (s.drop 1) = fill new cut (t.drop 1) := by
        constructor
        · intro h
          exact List.append_inj h (by simp [hlen])
        · rintro ⟨hfirst, hrest⟩
          rw [fill, fill, hfirst, hrest]
      rw [hcut, ih (by simp [hlen])]
      constructor
      · rintro ⟨hfirst, hrest⟩ i hi
        cases i with
        | zero =>
          have hhead := congrArg (fun l => l[0]?) hfirst
          simpa [List.getElem?_take] using hhead
        | succ i =>
          have htail := hrest i hi
          rwa [List.getElem?_drop, List.getElem?_drop, Nat.add_comm 1 i] at htail
      · intro h
        constructor
        · have hhead := h 0 rfl
          rw [← List.head?_eq_getElem?, ← List.head?_eq_getElem?] at hhead
          rw [List.take_one, List.take_one, hhead]
        · intro i hi
          rw [List.getElem?_drop, List.getElem?_drop, Nat.add_comm 1 i]
          exact h (i + 1) hi
    | some n =>
      rw [fill, fill, List.append_right_inj, ih (by simp [hlen])]
      constructor
      · intro h i hi
        rw [stays, Bool.and_eq_true_iff, decide_eq_true_eq] at hi
        have hrest := h (i - n) hi.2
        rwa [List.getElem?_drop, List.getElem?_drop, Nat.add_sub_cancel' hi.1] at hrest
      · intro h i hi
        rw [List.getElem?_drop, List.getElem?_drop]
        refine h (n + i) ?_
        simpa [stays] using hi

theorem fill_between_iff {x y : List Char} (hlen : s.length = t.length) :
    fill new cut (x ++ (s ++ y)) = fill new cut (x ++ (t ++ y)) ↔
      ∀ i, stays cut (x.length + i) = true → s[i]? = t[i]? := by
  rw [fill_eq_iff (by simp [hlen])]
  constructor
  · intro h i hi
    have hplace := h _ hi
    rw [List.getElem?_append_right (Nat.le_add_right _ _),
      List.getElem?_append_right (Nat.le_add_right _ _), Nat.add_sub_cancel_left] at hplace
    rcases Nat.lt_or_ge i s.length with hlt | hge
    · rwa [List.getElem?_append_left hlt, List.getElem?_append_left (hlen ▸ hlt)] at hplace
    · rw [List.getElem?_eq_none hge, List.getElem?_eq_none (hlen ▸ hge)]
  · intro h i hi
    rcases Nat.lt_or_ge i x.length with hlt | hge
    · rw [List.getElem?_append_left hlt, List.getElem?_append_left hlt]
    · rw [← Nat.add_sub_cancel' hge] at hi
      rw [List.getElem?_append_right hge, List.getElem?_append_right hge, List.getElem?_append,
        List.getElem?_append, h _ hi, hlen]

theorem forall_getElem?_append {P : Nat → Prop} {c : Char} :
    (∀ i, (s ++ t)[i]? = some c → P i) ↔
      (∀ i, s[i]? = some c → P i) ∧ ∀ i, t[i]? = some c → P (s.length + i) := by
  constructor
  · intro h
    constructor
    · intro i hi
      obtain ⟨hlt, -⟩ := List.getElem?_eq_some_iff.mp hi
      exact h i (by rw [List.getElem?_append_left hlt, hi])
    · intro i hi
      exact h _ (by rw [List.getElem?_append_right (Nat.le_add_right _ _),
        Nat.add_sub_cancel_left, hi])
  · rintro ⟨hs, ht⟩ i hi
    rcases Nat.lt_or_ge i s.length with hlt | hge
    · rw [List.getElem?_append_left hlt] at hi
      exact hs i hi
    · rw [List.getElem?_append_right hge] at hi
      rw [← Nat.add_sub_cancel' hge]
      exact ht _ hi

theorem forall_getElem?_of_not_mem {P : Nat → Prop} {c : Char} (h : c ∉ s) :
    ∀ i, s[i]? = some c → P i :=
  fun _ hi => absurd (List.mem_of_getElem? hi) h

end Cut

end Data
