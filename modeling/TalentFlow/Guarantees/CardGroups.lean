import TalentFlow.Data.Cut
import TalentFlow.Guarantees.Residue

/-!
# Guarantees.CardGroups

What the card pattern takes of groups of four digits that follow each other with one separator
between every two.

Digits and white space of one kind are as good as those of another for the pattern, so the texts
here have no digit but `0`. A row of groups is read from its start, four groups at a time; of what
is left over nothing is taken.

* `cut_row`: a row that nothing continues, from its start.
* `stays_row`: which groups of a row stay, wherever it stands in a text.
-/

namespace TalentFlow.CvParser

open Data Regex Pattern

namespace PiiRedactor

/-- `[-\s]` -/
def separator (c : Char) : Bool := c == '-' || space c

/-- How many groups of four digits, each with a separator before it, a text begins with. `word`
tells of what follows a group whether it would continue it. -/
def groupsNext (word : List Char → Bool) : List Char → Nat
  | s :: a :: b :: c :: d :: rest =>
    if separator s && [a, b, c, d].all Char.isDigit && !word rest then groupsNext word rest + 1
    else 0
  | _ => 0

variable (data : CharacterData)

def groupsBefore (text : List Char) : Nat := groupsNext data.wordBefore text.reverse

def groupsAfter (text : List Char) : Nat := groupsNext (data.wordAfter ['0']) text

/-! ## Rows of groups -/

def zeros : List Char := ['0', '0', '0', '0']

def tailRow (ss : List Char) : List Char := ss.flatMap fun s => s :: zeros

/-- Groups with a separator between every two. -/
def row (ss : List Char) : List Char := zeros ++ tailRow ss

theorem tailRow_append (ss ts : List Char) : tailRow (ss ++ ts) = tailRow ss ++ tailRow ts := by
  simp [tailRow]

theorem row_cons (s : Char) (ss : List Char) : row (s :: ss) = zeros ++ s :: row ss := by
  simp [row, tailRow]

theorem row_append (ss ts : List Char) : row (ss ++ ts) = row ss ++ tailRow ts := by
  rw [row, tailRow_append, ← List.append_assoc]
  rfl

theorem row_reverse (ss : List Char) : (row ss).reverse = row ss.reverse := by
  induction ss with
  | nil => rfl
  | cons s ss ih =>
    rw [row_cons, List.reverse_append, List.reverse_cons, ih, List.reverse_cons, row_append,
      List.append_assoc]
    rfl

theorem length_row (ss : List Char) : (row ss).length = 5 * ss.length + 4 := by
  induction ss with
  | nil => rfl
  | cons s ss ih =>
    rw [row_cons, List.length_append, List.length_cons, ih, List.length_cons,
      show zeros.length = 4 from rfl]
    omega

theorem length_tailRow (ss : List Char) : (tailRow ss).length = 5 * ss.length := by
  have hlen := length_row ss
  rw [row, List.length_append, show zeros.length = 4 from rfl] at hlen
  omega

/-- What stands before a row belongs to it as far as it is made of groups. -/
theorem tailRow_reverse_append (ss ts : List Char) :
    (tailRow ss).reverse ++ row ts = row (ss.reverse ++ ts) := by
  have hrow := row_reverse ss
  rw [row, List.reverse_append, show zeros.reverse = zeros from rfl] at hrow
  rw [row_append, ← hrow, List.append_assoc]
  rfl

/-- No digit but `0`. -/
def Plain (s : List Char) : Prop := ∀ c ∈ s, c.isDigit = true → c = '0'

theorem Plain.of_infix {s t : List Char} (ht : Plain t) (h : s <:+: t) : Plain s :=
  fun c hc => ht c (h.subset hc)

theorem eq_zeros {g : List Char} (hlen : g.length = 4) (hdigits : ∀ c ∈ g, c.isDigit = true)
    (hg : Plain g) : g = zeros :=
  List.eq_replicate_iff.mpr ⟨hlen, fun c hc => hg c hc (hdigits c hc)⟩

theorem groupsNext_tailRow {word : List Char → Bool} {z : List Char} (hz : Plain z) :
    ∃ ss rest, z = tailRow ss ++ rest ∧ ss.length = groupsNext word z ∧
      (∀ s ∈ ss, separator s = true) ∧ (ss = [] ∨ word rest = false) ∧
      groupsNext word rest = 0 := by
  induction z using groupsNext.induct word with
  | case1 s a b c d rest h ih =>
    obtain ⟨ss, rest, rfl, hlen, hsep, hword, hnone⟩ := ih fun e he => hz e (by simp [he])
    obtain ⟨⟨hs, hdigits⟩, hnext⟩ : (separator s = true ∧
        [a, b, c, d].all Char.isDigit = true) ∧ word (tailRow ss ++ rest) = false := by
      simpa only [Bool.and_eq_true, Bool.not_eq_true'] using h
    have hgroup : [a, b, c, d] = zeros := by
      refine eq_zeros rfl (List.all_eq_true.mp hdigits) fun e he => hz e ?_
      exact List.mem_cons_of_mem s (List.mem_append_left (tailRow ss ++ rest) he)
    refine ⟨s :: ss, rest, ?_, ?_, ?_, .inr ?_, hnone⟩
    · rw [show tailRow (s :: ss) = s :: zeros ++ tailRow ss from rfl, ← hgroup]
      simp
    · rw [groupsNext, if_pos h, List.length_cons, hlen]
    · intro e he
      rcases List.mem_cons.mp he with rfl | he
      · exact hs
      · exact hsep e he
    · rcases hword with rfl | hword
      · exact hnext
      · exact hword
  | case2 s a b c d rest h =>
    refine ⟨[], _, rfl, ?_, by simp, .inl rfl, ?_⟩
    · rw [groupsNext, if_neg h]
      rfl
    · rw [groupsNext, if_neg h]
  | case3 z h =>
    have hnone : groupsNext word z = 0 := by
      rw [groupsNext.eq_def]
      split
      · exact absurd rfl (h _ _ _ _ _ _)
      · rfl
    exact ⟨[], z, rfl, hnone.symm, by simp, .inl rfl, hnone⟩

/-! ## Places in a row -/

section Places

variable {data : CharacterData} {before s : List Char} {c : Char}

theorem separator_mem (h : separator c = true) :
    c ∈ ['-', ' ', '\t', '\n', '\x0B', '\x0C', '\r'] := by
  simpa [separator, space, or_assoc] using h

theorem separator_ascii (h : separator c = true) :
    c.val < 128 ∧ c.isAlphanum = false ∧ (c == '_') = false := by
  have hall : ['-', ' ', '\t', '\n', '\x0B', '\x0C', '\r'].all
      (fun d => decide (d.val < 128) && !d.isAlphanum && !(d == '_')) = true := rfl
  have hc := List.all_eq_true.mp hall c (separator_mem h)
  simpa only [Bool.and_eq_true, decide_eq_true_eq, Bool.not_eq_true', and_assoc] using hc

variable (data) in
theorem not_word_of_separator (h : separator c = true) :
    data.isWord c = false ∧ data.isNonSpacingMark c = false := by
  obtain ⟨hlt, halphanum, hunderscore⟩ := separator_ascii h
  obtain ⟨hletter, hmark⟩ := data.ascii c hlt
  rw [CharacterData.isWord, hletter, halphanum, hunderscore]
  exact ⟨rfl, hmark⟩

theorem not_digit_of_separator (h : separator c = true) : c.isDigit = false := by
  have hall : ['-', ' ', '\t', '\n', '\x0B', '\x0C', '\r'].all (fun d => !d.isDigit) = true := rfl
  exact (Bool.not_eq_true' _).mp (List.all_eq_true.mp hall c (separator_mem h))

theorem wordBefore_separator (h : separator c = true) : data.wordBefore (c :: before) = false := by
  obtain ⟨hword, hmark⟩ := not_word_of_separator data h
  rw [CharacterData.wordBefore, hword, hmark]
  rfl

theorem wordAfter_separator (h : separator c = true) :
    data.wordAfter before (c :: s) = false := by
  obtain ⟨hword, hmark⟩ := not_word_of_separator data h
  rw [CharacterData.wordAfter, hword, hmark]
  rfl

theorem isBase_zero : data.IsBase '0' := CharacterData.isBase_of_isDigit rfl

theorem wordAfter_zero (before s : List Char) :
    data.wordAfter ('0' :: before) s = data.wordAfter ['0'] s := by
  cases s with
  | nil => rfl
  | cons c s =>
    simp only [CharacterData.wordAfter, isBase_zero.hasBaseCharacter]

theorem wordBefore_row (ss : List Char) :
    data.wordBefore ((row ss).reverse ++ before) = true := by
  rw [row_reverse]
  exact isBase_zero.wordBefore

theorem wordAfter_row (ss : List Char) : data.wordAfter ((row ss).reverse ++ before) s =
    data.wordAfter ['0'] s := by
  rw [row_reverse]
  exact wordAfter_zero _ s

/-- The eight digits that the phone pattern takes are nowhere in the text. -/
def NoRun (s : List Char) : Prop :=
  ∀ m, m <:+: s → m.length = 8 → ¬ ∀ c ∈ m, c.isDigit = true

theorem NoRun.of_infix {t : List Char} (ht : NoRun t) (h : s <:+: t) : NoRun s :=
  fun m hm => ht m (hm.trans h)

theorem cardGroup_plain {m : List Char} (h : cardGroup.Spells m) (hplain : Plain m) :
    m = zeros ∨ ∃ c, separator c = true ∧ m = zeros ++ [c] := by
  obtain ⟨u, v, hu, hv, rfl⟩ := h
  obtain ⟨hlen, hdigits⟩ := spells_times_one.mp hu
  obtain rfl := eq_zeros hlen hdigits (hplain.of_infix ⟨[], v, rfl⟩)
  rcases hv with ⟨c, hc, rfl⟩ | hnil
  · exact .inr ⟨c, hc, rfl⟩
  · rw [show v = [] from hnil, List.append_nil]
    exact .inl rfl

/-- A group that is followed by another one has a separator. -/
theorem cardGroup_separated {u m v : List Char} (hm : cardGroup.Spells m)
    (hplain : Plain (u ++ (m ++ (zeros ++ v)))) (hrun : NoRun (u ++ (m ++ (zeros ++ v)))) :
    ∃ c, separator c = true ∧ m = zeros ++ [c] := by
  rcases cardGroup_plain hm (hplain.of_infix ⟨u, zeros ++ v, List.append_assoc _ _ _⟩) with
    rfl | hsep
  · exact absurd (List.all_eq_true.mp rfl) (hrun (zeros ++ zeros) ⟨u, v, by simp⟩ rfl)
  · exact hsep

/-- A card number in a text without eight adjacent digits is a row of four groups. -/
theorem isWord_card {m : List Char} (h : (CREDIT_CARD_PATTERN data).IsWord m) (hplain : Plain m)
    (hrun : NoRun m) : ∃ a b c, (∀ s ∈ [a, b, c], separator s = true) ∧ m = row [a, b, c] := by
  obtain ⟨words, hspells, rfl⟩ := h
  cases hspells with
  | cons hgroups hrest =>
    cases hrest with
    | cons hlast hnil =>
      cases hnil
      rename_i last
      obtain ⟨m₁, _, h₁, ⟨m₂, _, h₂, ⟨m₃, _, h₃, hempty, rfl⟩, rfl⟩, rfl⟩ := hgroups
      obtain rfl := hempty
      obtain ⟨hlen, hdigits⟩ := spells_times_one.mp hlast
      simp only [List.flatten_cons, List.flatten_nil, List.append_nil, List.append_assoc]
        at hplain hrun ⊢
      obtain rfl : last = zeros :=
        eq_zeros hlen hdigits (hplain.of_infix ⟨m₁ ++ m₂ ++ m₃, [], by simp⟩)
      -- from the last group to the first, as a group is followed by one that is known already
      obtain ⟨c, hc, rfl⟩ := @cardGroup_separated (m₁ ++ m₂) m₃ [] h₃ (by simpa using hplain)
        (by simpa using hrun)
      obtain ⟨b, hb, rfl⟩ := @cardGroup_separated m₁ m₂ (c :: zeros) h₂ (by simpa using hplain)
        (by simpa using hrun)
      obtain ⟨a, ha, rfl⟩ := @cardGroup_separated [] m₁ (b :: (zeros ++ c :: zeros)) h₁
        (by simpa using hplain) (by simpa using hrun)
      exact ⟨a, b, c, by simp [ha, hb, hc], by simp [row, tailRow]⟩

theorem isWord_row {a b c : Char} (h : ∀ s ∈ [a, b, c], separator s = true) :
    (CREDIT_CARD_PATTERN data).IsWord (row [a, b, c]) := by
  have hdigits : (Regex.times 4 (.one Char.isDigit)).Spells zeros :=
    spells_times_one.mpr ⟨rfl, List.all_eq_true.mp rfl⟩
  have hgroup : ∀ s ∈ [a, b, c], cardGroup.Spells (zeros ++ [s]) :=
    fun s hs => hdigits.seq (.inl ⟨s, h s hs, rfl⟩)
  have hgroups : (Regex.times 3 cardGroup).Spells
      ((zeros ++ [a]) ++ ((zeros ++ [b]) ++ ((zeros ++ [c]) ++ []))) :=
    (hgroup a (by simp)).seq ((hgroup b (by simp)).seq ((hgroup c (by simp)).seq rfl))
  exact ⟨_, .cons hgroups (.cons hdigits .nil), by simp [row, tailRow]⟩

theorem groupsNext_group {word : List Char → Bool} {rest : List Char} (hc : separator c = true)
    (hrest : word rest = false) :
    groupsNext word (c :: (zeros ++ rest)) = groupsNext word rest + 1 := by
  rw [show c :: (zeros ++ rest) = c :: '0' :: '0' :: '0' :: '0' :: rest from rfl, groupsNext, hc,
    hrest]
  rfl

theorem wordAfter_tailRow {ss : List Char} (hss : ∀ s ∈ ss, separator s = true)
    (hs : data.wordAfter ['0'] s = false) : data.wordAfter ['0'] (tailRow ss ++ s) = false := by
  cases ss with
  | nil => exact hs
  | cons c ss => exact wordAfter_separator (hss c List.mem_cons_self)

theorem groupsAfter_pos {ss ts v rest : List Char} (hlen : ss.length < ts.length)
    (hts : ∀ s ∈ ts, separator s = true) (hrest : data.wordAfter ['0'] rest = false)
    (h : row ss ++ v = row ts ++ rest) : 0 < groupsAfter data v := by
  induction ss generalizing ts with
  | nil =>
    cases ts with
    | nil => cases hlen
    | cons t ts =>
      rw [row_cons, List.append_assoc] at h
      have hv : v = t :: (row ts ++ rest) := List.append_cancel_left h
      rw [groupsAfter, hv, row, List.append_assoc, groupsNext_group (hts t List.mem_cons_self)]
      · exact Nat.succ_pos _
      · exact wordAfter_tailRow (fun s hs => hts s (List.mem_cons_of_mem t hs)) hrest
  | cons s ss ih =>
    cases ts with
    | nil => cases hlen
    | cons t ts =>
      rw [row_cons, row_cons, List.append_assoc, List.append_assoc] at h
      obtain ⟨-, htail⟩ := List.cons.inj (List.append_cancel_left h)
      exact ih (Nat.lt_of_succ_lt_succ hlen) (fun u hu => hts u (List.mem_cons_of_mem t hu)) htail

/-- What matches in a plain text without eight adjacent digits. -/
theorem matches_row {m : Match} (hplain : Plain s) (hrun : NoRun s)
    (hm : (CREDIT_CARD_PATTERN data).Matches before s m) :
    ∃ ts, ts.length = 3 ∧ (∀ s ∈ ts, separator s = true) ∧ m.text = row ts ∧
      data.wordBefore before = false ∧ data.wordAfter ['0'] m.rest = false := by
  have hpart : m.text <:+: s := ⟨[], m.rest, hm.cut.symm⟩
  obtain ⟨a, b, c, hsep, htext⟩ :=
    isWord_card hm.isWord (hplain.of_infix hpart) (hrun.of_infix hpart)
  have hstart : data.boundary before s = true := hm.start
  have hstop : data.boundary (m.text.reverse ++ before) m.rest = true := hm.stop
  have hfirst : data.wordAfter before s = true := by
    rw [hm.cut, htext]
    exact isBase_zero.wordAfter
  rw [CharacterData.boundary, hfirst] at hstart
  rw [CharacterData.boundary, htext, wordBefore_row, wordAfter_row] at hstop
  exact ⟨[a, b, c], rfl, hsep, htext, by simpa using hstart, by simpa using hstop⟩

theorem matchAt_row_short (before : List Char) {ss v : List Char} (hlen : ss.length < 3)
    (hplain : Plain (row ss ++ v)) (hrun : NoRun (row ss ++ v)) (hv : groupsAfter data v = 0) :
    (CREDIT_CARD_PATTERN data).matchAt before (row ss ++ v) = none := by
  refine matchAt_eq_none.mpr fun m hm => ?_
  obtain ⟨ts, hts, hsep, htext, -, hrest⟩ := matches_row hplain hrun hm
  have hcut := hm.cut
  rw [htext] at hcut
  have hpos := groupsAfter_pos (by omega) hsep hrest hcut
  omega

/-- Four groups are taken, where a word may begin and no word goes on. -/
theorem matchAt_row_long {ts v : List Char} (hlen : ts.length = 3)
    (hts : ∀ s ∈ ts, separator s = true) (hplain : Plain (row ts ++ v))
    (hrun : NoRun (row ts ++ v)) (hbefore : data.wordBefore before = false)
    (hv : data.wordAfter ['0'] v = false) :
    ∃ words, (CREDIT_CARD_PATTERN data).matchAt before (row ts ++ v) = some ⟨words, v⟩ ∧
      words.flatten = row ts := by
  obtain ⟨words, hspells, hwords⟩ : (CREDIT_CARD_PATTERN data).IsWord (row ts) := by
    obtain ⟨a, b, c, rfl⟩ := List.length_eq_three.mp hlen
    exact isWord_row hts
  have hmatches : (CREDIT_CARD_PATTERN data).Matches before (row ts ++ v) ⟨words, v⟩ := by
    refine ⟨hspells, by rw [hwords]; rfl, ?_, ?_⟩
    · show data.boundary before (row ts ++ v) = true
      have hfirst : data.wordAfter before (row ts ++ v) = true := isBase_zero.wordAfter
      rw [CharacterData.boundary, hbefore, hfirst]
      rfl
    · show data.boundary (words.flatten.reverse ++ before) v = true
      rw [← hwords, CharacterData.boundary, wordBefore_row, wordAfter_row, hv]
      rfl
  cases hm : (CREDIT_CARD_PATTERN data).matchAt before (row ts ++ v) with
  | none => exact absurd hmatches (matchAt_eq_none.mp hm _)
  | some m =>
    have hmatch := matchAt_eq_some hm
    obtain ⟨us, hus, -, htext, -, -⟩ := matches_row hplain hrun hmatch
    have hcut := hmatch.cut
    obtain ⟨hrow, hrest⟩ := List.append_inj hcut (by rw [htext, length_row, length_row, hlen, hus])
    exact ⟨m.words, by rw [hrest], hrow.symm⟩

/-! ## The cut of a row -/

theorem matchAt_inside : (CREDIT_CARD_PATTERN data).matchAt ('0' :: before) ('0' :: s) = none := by
  refine matchAt_eq_none.mpr fun m hm => ?_
  have hstart : data.boundary ('0' :: before) ('0' :: s) = true := hm.start
  rw [CharacterData.boundary, isBase_zero.wordBefore, isBase_zero.wordAfter] at hstart
  cases hstart

theorem matchAt_separator (hc : separator c = true) :
    (CREDIT_CARD_PATTERN data).matchAt before (c :: s) = none := by
  refine matchAt_of_no_start fun t ht => ?_
  obtain ⟨d, u, heq, hd⟩ := card_delimited.first _ ht
  obtain ⟨rfl, -⟩ := List.cons.inj heq
  have hword := (not_word_of_separator data hc).1
  rw [hd.isWord] at hword
  cases hword

theorem pieces_zeros (h : (CREDIT_CARD_PATTERN data).matchAt before (zeros ++ s) = none) :
    (CREDIT_CARD_PATTERN data).pieces before (zeros ++ s) =
      zeros.map .kept ++ (CREDIT_CARD_PATTERN data).pieces (zeros ++ before) s := by
  have hfirst :
      (CREDIT_CARD_PATTERN data).matchAt before ('0' :: '0' :: '0' :: '0' :: s) = none := h
  show (CREDIT_CARD_PATTERN data).pieces before ('0' :: '0' :: '0' :: '0' :: s) = _
  rw [pieces_kept hfirst, pieces_kept matchAt_inside, pieces_kept matchAt_inside,
    pieces_kept matchAt_inside]
  rfl

theorem pieces_row_short (before : List Char) {ss v : List Char} (hlen : ss.length < 3)
    (hss : ∀ s ∈ ss, separator s = true) (hplain : Plain (row ss ++ v))
    (hrun : NoRun (row ss ++ v)) (hv : groupsAfter data v = 0) :
    ∃ before', (CREDIT_CARD_PATTERN data).pieces before (row ss ++ v) =
      (row ss).map .kept ++ (CREDIT_CARD_PATTERN data).pieces before' v := by
  have hnone := matchAt_row_short before hlen hplain hrun hv
  induction ss generalizing before with
  | nil => exact ⟨_, pieces_zeros hnone⟩
  | cons c ss ih =>
    rw [row_cons, List.append_assoc, List.cons_append] at hnone hplain hrun ⊢
    have hpart : row ss ++ v <:+: zeros ++ c :: (row ss ++ v) := ⟨zeros ++ [c], [], by simp⟩
    have hshort : ss.length < 3 := Nat.lt_of_succ_lt hlen
    obtain ⟨before', hrest⟩ := ih (c :: (zeros ++ before)) hshort
      (fun d hd => hss d (List.mem_cons_of_mem c hd)) (hplain.of_infix hpart) (hrun.of_infix hpart)
      (matchAt_row_short _ hshort (hplain.of_infix hpart) (hrun.of_infix hpart) hv)
    refine ⟨before', ?_⟩
    rw [pieces_zeros hnone, pieces_kept (matchAt_separator (hss c List.mem_cons_self)), hrest]
    simp

theorem cut_separator (hc : separator c = true) :
    (CREDIT_CARD_PATTERN data).cut before (c :: s) =
      none :: (CREDIT_CARD_PATTERN data).cut (c :: before) s := by
  rw [Pattern.cut, pieces_kept (matchAt_separator hc)]
  rfl

/-- Four groups are replaced together. -/
theorem cut_row_long {ts v : List Char} (hlen : ts.length = 3)
    (hts : ∀ s ∈ ts, separator s = true) (hplain : Plain (row ts ++ v))
    (hrun : NoRun (row ts ++ v)) (hbefore : data.wordBefore before = false)
    (hv : data.wordAfter ['0'] v = false) :
    ∃ before', (CREDIT_CARD_PATTERN data).cut before (row ts ++ v) =
      some 19 :: (CREDIT_CARD_PATTERN data).cut before' v := by
  obtain ⟨words, hmatch, hwords⟩ := matchAt_row_long hlen hts hplain hrun hbefore hv
  have hsize : words.flatten.length = 19 := by rw [hwords, length_row, hlen]
  refine ⟨(Match.text ⟨words, v⟩).reverse ++ before, ?_⟩
  rw [Pattern.cut, pieces_found hmatch, List.map_cons, Piece.size, hsize]
  rfl

/-- In a row that nothing continues, as many groups as make whole card numbers are taken. -/
theorem cut_row {ss v : List Char} (hss : ∀ s ∈ ss, separator s = true)
    (hplain : Plain (row ss ++ v)) (hrun : NoRun (row ss ++ v))
    (hbefore : data.wordBefore before = false) (hv : data.wordAfter ['0'] v = false)
    (hnext : groupsAfter data v = 0) {j t : Nat} (hj : j ≤ ss.length) (ht : t < 4) :
    stays ((CREDIT_CARD_PATTERN data).cut before (row ss ++ v)) (5 * j + t) =
      decide (4 * ((ss.length + 1) / 4) ≤ j) := by
  induction hn : ss.length using Nat.strong_induction_on generalizing before ss j with
  | _ n ih =>
    by_cases hlen : ss.length < 3
    · obtain ⟨before', hpieces⟩ := pieces_row_short before hlen hss hplain hrun hnext
      rw [Pattern.cut, hpieces, List.map_append, stays_kept (by rw [length_row]; omega)]
      symm
      rw [decide_eq_true_eq]
      omega
    · -- the first four groups, and what is left of the row
      obtain ⟨ts, us, rfl, hts⟩ : ∃ ts us, ss = ts ++ us ∧ ts.length = 3 :=
        ⟨ss.take 3, ss.drop 3, (List.take_append_drop 3 ss).symm, by simp; omega⟩
      have htsep : ∀ s ∈ ts, separator s = true := fun s hs => hss s (List.mem_append_left us hs)
      have husep : ∀ s ∈ us, separator s = true := fun s hs => hss s (List.mem_append_right ts hs)
      rw [row_append, List.append_assoc] at hplain hrun ⊢
      obtain ⟨before', hcut⟩ :=
        cut_row_long hts htsep hplain hrun hbefore (wordAfter_tailRow husep hv)
      rw [hcut]
      rw [List.length_append, hts] at hn hj
      by_cases hfour : j < 4
      · have htaken : ¬ 19 ≤ 5 * j + t := by omega
        have hleft : ¬ 4 * ((n + 1) / 4) ≤ j := by omega
        rw [stays, decide_eq_false htaken, decide_eq_false hleft]
        rfl
      · cases us with
        | nil =>
          rw [List.length_nil] at hj
          omega
        | cons u us =>
          have hu : separator u = true := husep u List.mem_cons_self
          have htail : tailRow (u :: us) ++ v = u :: (row us ++ v) := by simp [tailRow, row]
          have hpart : row us ++ v <:+: row ts ++ (tailRow (u :: us) ++ v) :=
            ⟨row ts ++ [u], [], by rw [htail]; simp⟩
          rw [List.length_cons] at hn hj
          have hfirst : data.wordBefore (u :: before') = false := wordBefore_separator hu
          have hrest := ih us.length (by omega) (fun s hs => husep s (List.mem_cons_of_mem u hs))
            (hplain.of_infix hpart) (hrun.of_infix hpart) hfirst
            (show j - 4 ≤ us.length by omega) rfl
          have hplace : 5 * j + t = 19 + ((5 * (j - 4) + t) + 1) := by omega
          have hsame : (4 * ((us.length + 1) / 4) ≤ j - 4) ↔ (4 * ((n + 1) / 4) ≤ j) := by omega
          rw [htail, cut_separator hu, hplace, stays, decide_eq_true (Nat.le_add_right _ _),
            Nat.add_sub_cancel_left, Bool.true_and, stays, hrest]
          exact decide_eq_decide.mpr hsame

/-! ## A row in a text -/

theorem not_all_zero {u₁ u₂ : List Char} (hne : u₂ ≠ [])
    (hend : data.wordBefore (u₁ ++ u₂).reverse = false) : ¬ ∀ c ∈ u₂, c = '0' := by
  intro hall
  cases hlast : u₂.reverse with
  | nil => exact hne (List.reverse_eq_nil_iff.mp hlast)
  | cons c u =>
    have hc : c = '0' := hall c (List.mem_reverse.mp (hlast ▸ List.mem_cons_self))
    rw [List.reverse_append, hlast, hc, List.cons_append, isBase_zero.wordBefore] at hend
    cases hend

theorem groupsBefore_pos {ts u₁ u₂ w : List Char} (hts : ∀ s ∈ ts, separator s = true)
    (hrow : row ts = u₂ ++ w) (hne : u₂ ≠ []) (hstart : data.wordBefore u₁.reverse = false)
    (hend : data.wordBefore (u₁ ++ u₂).reverse = false) : 0 < groupsBefore data (u₁ ++ u₂) := by
  have hzeros : ∀ c ∈ zeros, c = '0' := fun c hc => List.eq_of_mem_replicate (n := 4) hc
  induction ts generalizing u₁ u₂ with
  | nil =>
    have hrow' : zeros = u₂ ++ w := hrow
    refine absurd (fun c hc => hzeros c ?_) (not_all_zero hne hend)
    rw [hrow']
    exact List.mem_append_left w hc
  | cons t ts ih =>
    have ht := hts t List.mem_cons_self
    rw [row_cons] at hrow
    rcases List.append_eq_append_iff.mp hrow with ⟨a, rfl, ha⟩ | ⟨a, ha, -⟩
    · cases a with
      | nil =>
        rw [List.append_nil] at hend hne
        exact absurd hzeros (not_all_zero hne hend)
      | cons t' a =>
        obtain ⟨rfl, hrest⟩ := List.cons.inj ha
        by_cases hnil : a = []
        · subst hnil
          have hreverse : (u₁ ++ (zeros ++ [t])).reverse = t :: (zeros ++ u₁.reverse) := by
            simp [zeros]
          rw [groupsBefore, hreverse, groupsNext_group ht hstart]
          exact Nat.succ_pos _
        · have hassoc : u₁ ++ (zeros ++ t :: a) = (u₁ ++ zeros ++ [t]) ++ a := by simp
          rw [hassoc] at hend ⊢
          refine ih (fun s hs => hts s (List.mem_cons_of_mem t hs)) hrest hnil ?_ hend
          rw [List.reverse_append]
          exact wordBefore_separator ht
    · refine absurd (fun c hc => hzeros c ?_) (not_all_zero hne hend)
      rw [ha]
      exact List.mem_append_left a hc

/-- No match goes across the start of a row. -/
theorem pieces_row {u ss v : List Char} (hplain : Plain (u ++ (row ss ++ v)))
    (hrun : NoRun (u ++ (row ss ++ v))) (hword : data.wordBefore u.reverse = false)
    (hbefore : groupsBefore data u = 0) :
    ∃ ps, source ps = u ∧ (CREDIT_CARD_PATTERN data).pieces [] (u ++ (row ss ++ v)) =
      ps ++ (CREDIT_CARD_PATTERN data).pieces u.reverse (row ss ++ v) := by
  obtain ⟨ps, hps, hcut⟩ | ⟨ps, u₁, u₂, m, rfl, hne, -, hmatch, hlt, -⟩ :=
    Pattern.pieces_append (p := CREDIT_CARD_PATTERN data) [] u (row ss ++ v)
  · exact ⟨ps, hps, by rw [hcut, List.append_nil]⟩
  · have hm := matchAt_eq_some hmatch
    have hpart : u₂ ++ (row ss ++ v) <:+: u₁ ++ u₂ ++ (row ss ++ v) := ⟨u₁, [], by simp⟩
    obtain ⟨ts, -, hsep, htext, hstart, -⟩ :=
      matches_row (hplain.of_infix hpart) (hrun.of_infix hpart) hm
    have hrow : ∃ w, row ts = u₂ ++ w := by
      have hcut := hm.cut
      rw [htext] at hcut
      rcases List.append_eq_append_iff.mp hcut with ⟨w, hw, -⟩ | ⟨w, -, hw⟩
      · exact ⟨w, hw⟩
      · rw [hw, List.length_append] at hlt
        omega
    obtain ⟨w, hrow⟩ := hrow
    rw [List.append_nil] at hstart
    have hpos := groupsBefore_pos hsep hrow hne hstart hword
    omega

theorem exists_before {x : List Char} (hplain : Plain x)
    (hx : data.wordBefore x.reverse = false) :
    ∃ u as, x = u ++ (tailRow as).reverse ∧ as.length = groupsBefore data x ∧
      (∀ s ∈ as, separator s = true) ∧ data.wordBefore u.reverse = false ∧
      groupsBefore data u = 0 := by
  have hreverse : Plain x.reverse := fun c hc => hplain c (List.mem_reverse.mp hc)
  obtain ⟨as, u, hcut, hlen, hsep, hword, hnone⟩ := @groupsNext_tailRow data.wordBefore _ hreverse
  refine ⟨u.reverse, as, ?_, hlen, hsep, ?_, ?_⟩
  · rw [← List.reverse_reverse x, hcut, List.reverse_append]
  · rw [List.reverse_reverse]
    rcases hword with rfl | hword
    · rw [hcut] at hx
      exact hx
    · exact hword
  · rw [groupsBefore, List.reverse_reverse]
    exact hnone

theorem exists_after {y : List Char} (hplain : Plain y) (hy : data.wordAfter ['0'] y = false) :
    ∃ bs v, y = tailRow bs ++ v ∧ bs.length = groupsAfter data y ∧
      (∀ s ∈ bs, separator s = true) ∧ data.wordAfter ['0'] v = false ∧
      groupsAfter data v = 0 := by
  obtain ⟨bs, v, rfl, hlen, hsep, hword, hnone⟩ :=
    @groupsNext_tailRow (data.wordAfter ['0']) _ hplain
  refine ⟨bs, v, rfl, hlen, hsep, ?_, hnone⟩
  rcases hword with rfl | hword
  · exact hy
  · exact hword

/-- A row with groups before it and after it: of all of them together, as many as make whole card
numbers are taken from the left. -/
theorem stays_row {x ss y : List Char} (hss : ∀ s ∈ ss, separator s = true)
    (hplain : Plain (x ++ (row ss ++ y))) (hrun : NoRun (x ++ (row ss ++ y)))
    (hx : data.wordBefore x.reverse = false) (hy : data.wordAfter ['0'] y = false) {j t : Nat}
    (hj : j ≤ ss.length) (ht : t < 4) :
    stays ((CREDIT_CARD_PATTERN data).cut [] (x ++ (row ss ++ y))) (x.length + (5 * j + t)) =
      decide (4 * ((groupsBefore data x + (ss.length + 1) + groupsAfter data y) / 4) ≤
        groupsBefore data x + j) := by
  obtain ⟨u, as, rfl, hk, hassep, hword, hbefore⟩ :=
    exists_before (hplain.of_infix ⟨[], row ss ++ y, rfl⟩) hx
  obtain ⟨bs, v, rfl, hn, hbsep, hnext, hv⟩ :=
    exists_after (hplain.of_infix ⟨u ++ (tailRow as).reverse ++ row ss, [], by simp⟩) hy
  rw [← hk, ← hn]
  -- all groups as one row
  have htext : u ++ (tailRow as).reverse ++ (row ss ++ (tailRow bs ++ v)) =
      u ++ (row (as.reverse ++ (ss ++ bs)) ++ v) := by
    rw [← tailRow_reverse_append, row_append]
    simp
  have hsep : ∀ s ∈ as.reverse ++ (ss ++ bs), separator s = true := by
    refine List.forall_mem_append.mpr ⟨fun s hs => hassep s (List.mem_reverse.mp hs), ?_⟩
    exact List.forall_mem_append.mpr ⟨hss, hbsep⟩
  have hgroups : (as.reverse ++ (ss ++ bs)).length + 1 =
      as.length + (ss.length + 1) + bs.length := by
    simp only [List.length_append, List.length_reverse]
    omega
  have hindex : as.length + j ≤ (as.reverse ++ (ss ++ bs)).length := by omega
  rw [htext] at hplain hrun ⊢
  obtain ⟨ps, hps, hcut⟩ := pieces_row hplain hrun hword hbefore
  have hpart : row (as.reverse ++ (ss ++ bs)) ++ v <:+:
      u ++ (row (as.reverse ++ (ss ++ bs)) ++ v) := ⟨u, [], by simp⟩
  have hrow := cut_row hsep (hplain.of_infix hpart) (hrun.of_infix hpart) hword hnext hv hindex ht
  have hplace : (u ++ (tailRow as).reverse).length + (5 * j + t) =
      (source ps).length + (5 * (as.length + j) + t) := by
    rw [hps, List.length_append, List.length_reverse, length_tailRow]
    omega
  rw [Pattern.cut, hgroups] at hrow
  rw [Pattern.cut, hcut, List.map_append, hplace, stays_append]
  exact hrow

theorem getElem?_row {ss : List Char} (hss : ∀ s ∈ ss, separator s = true) {i : Nat} :
    (row ss)[i]? = some '0' ↔ ∃ j ≤ ss.length, ∃ t < 4, i = 5 * j + t := by
  induction ss generalizing i with
  | nil =>
    have hzeros : (row [])[i]? = some '0' ↔ i < 4 := by
      rw [show row [] = List.replicate 4 '0' from rfl, List.getElem?_replicate]
      simp
    rw [hzeros]
    constructor
    · intro hi
      exact ⟨0, Nat.le_refl 0, i, hi, by omega⟩
    · rintro ⟨j, hj, t, ht, rfl⟩
      rw [List.length_nil] at hj
      omega
  | cons s ss ih =>
    have hrest := @ih (fun d hd => hss d (List.mem_cons_of_mem s hd))
    have hzero : s ≠ '0' := by
      rintro rfl
      exact absurd (not_digit_of_separator (hss '0' List.mem_cons_self)) (by decide)
    rw [row_cons, show zeros = List.replicate 4 '0' from rfl]
    rcases Nat.lt_trichotomy i 4 with hi | rfl | hi
    · rw [List.getElem?_append_left (by simpa using hi), List.getElem?_replicate, if_pos hi]
      exact iff_of_true rfl ⟨0, Nat.zero_le _, i, hi, by omega⟩
    · refine iff_of_false (by simpa using hzero) ?_
      rintro ⟨j, -, t, ht, heq⟩
      omega
    · have hplace : (List.replicate 4 '0' ++ s :: row ss)[i]? = (row ss)[i - 5]? := by
        rw [List.getElem?_append_right (by simp; omega), List.length_replicate,
          show i - 4 = (i - 5) + 1 by omega, List.getElem?_cons_succ]
      rw [hplace, hrest, List.length_cons]
      constructor
      · rintro ⟨j, hj, t, ht, heq⟩
        exact ⟨j + 1, by omega, t, ht, by omega⟩
      · rintro ⟨j, hj, t, ht, heq⟩
        exact ⟨j - 1, by omega, t, ht, by omega⟩

/-- No digit of a row stays if and only if its last group is one of those that are taken. -/
theorem hidden_row {x ss y : List Char} (hss : ∀ s ∈ ss, separator s = true)
    (hplain : Plain (x ++ (row ss ++ y))) (hrun : NoRun (x ++ (row ss ++ y)))
    (hx : data.wordBefore x.reverse = false) (hy : data.wordAfter ['0'] y = false) :
    (∀ i, (row ss)[i]? = some '0' →
      stays ((CREDIT_CARD_PATTERN data).cut [] (x ++ (row ss ++ y))) (x.length + i) = false) ↔
      groupsBefore data x + (ss.length + 1) ≤
        4 * ((groupsBefore data x + (ss.length + 1) + groupsAfter data y) / 4) := by
  constructor
  · intro h
    have hlast := h (5 * ss.length + 0)
      ((getElem?_row hss).mpr ⟨ss.length, Nat.le_refl _, 0, by omega, rfl⟩)
    rw [stays_row hss hplain hrun hx hy (Nat.le_refl _) (by omega), decide_eq_false_iff_not]
      at hlast
    omega
  · intro h i hi
    obtain ⟨j, hj, t, ht, rfl⟩ := (getElem?_row hss).mp hi
    rw [stays_row hss hplain hrun hx hy hj ht, decide_eq_false_iff_not]
    omega

end Places

end PiiRedactor

end TalentFlow.CvParser
