import TalentFlow.Guarantees.CardGroups

/-!
# Guarantees.CardNumbers

When `PiiRedactor.redact` hides the digits of a card number that stands between white space.

The phone pattern is looked for before the card pattern. It takes most of the digits of most card
numbers and leaves the rest of the groups, which the card pattern then finds if they make whole card
numbers together with the groups that stand next to them in the text.

* `phone_blankCard`: what the phone pattern leaves, for every way of writing the number.
* `card_hidden_iff`: the redacted text says nothing about the digits.
-/

namespace TalentFlow.CvParser

open Data Regex Pattern

namespace PiiRedactor

/-! ## Digits and white space -/

/-- Every digit as `0`, all white space as a blank. -/
def mask (c : Char) : Char := if c.isDigit then '0' else if space c then ' ' else c

theorem mask_cases (c : Char) : (c.isDigit = true ∧ mask c = '0') ∨
    (space c = true ∧ mask c = ' ') ∨ (c.isDigit = false ∧ space c = false ∧ mask c = c) := by
  unfold mask
  cases hdigit : c.isDigit with
  | true => exact .inl ⟨rfl, if_pos rfl⟩
  | false =>
    cases hspace : space c with
    | true => exact .inr (.inl ⟨rfl, by simp⟩)
    | false => exact .inr (.inr ⟨rfl, rfl, by simp⟩)

theorem separator_of_space {c : Char} (h : space c = true) : separator c = true := by
  rw [separator, h, Bool.or_true]

theorem not_digit_of_space {c : Char} (h : space c = true) : c.isDigit = false :=
  not_digit_of_separator (separator_of_space h)

theorem not_space_of_digit {c : Char} (h : c.isDigit = true) : space c = false := by
  cases hspace : space c with
  | true =>
    rw [not_digit_of_space hspace] at h
    cases h
  | false => rfl

theorem isDigit_mask (c : Char) : (mask c).isDigit = c.isDigit := by
  rcases mask_cases c with ⟨hc, hmask⟩ | ⟨hc, hmask⟩ | ⟨-, -, hmask⟩
  · rw [hmask, hc]
    rfl
  · rw [hmask, not_digit_of_space hc]
    rfl
  · rw [hmask]

theorem space_mask (c : Char) : space (mask c) = space c := by
  rcases mask_cases c with ⟨hc, hmask⟩ | ⟨hc, hmask⟩ | ⟨-, -, hmask⟩
  · rw [hmask, not_space_of_digit hc]
    rfl
  · rw [hmask, hc]
    rfl
  · rw [hmask]

theorem mask_beq {d : Char} (hdigit : d.isDigit = false) (hspace : space d = false) (c : Char) :
    (mask c == d) = (c == d) := by
  rw [Bool.eq_iff_iff, beq_iff_eq, beq_iff_eq]
  rcases mask_cases c with ⟨hc, hmask⟩ | ⟨hc, hmask⟩ | ⟨-, -, hmask⟩
  · refine iff_of_false ?_ ?_
    · rw [hmask]
      rintro rfl
      exact absurd hdigit (by decide)
    · rintro rfl
      rw [hc] at hdigit
      cases hdigit
  · refine iff_of_false ?_ ?_
    · rw [hmask]
      rintro rfl
      exact absurd hspace (by decide)
    · rintro rfl
      rw [hc] at hspace
      cases hspace
  · rw [hmask]

theorem separator_mask (c : Char) : separator (mask c) = separator c := by
  rw [separator, separator, space_mask, mask_beq (by decide) (by decide)]

theorem plain_mask (s : List Char) : Plain (s.map mask) := by
  intro c hc hdigit
  obtain ⟨d, -, rfl⟩ := List.mem_map.mp hc
  rcases mask_cases d with ⟨-, hmask⟩ | ⟨-, hmask⟩ | ⟨hd, -, -⟩
  · exact hmask
  · rw [hmask] at hdigit
    cases hdigit
  · rw [isDigit_mask, hd] at hdigit
    cases hdigit

theorem each_isDigit : (Regex.one Char.isDigit).Each (Alike mask []) := ⟨isDigit_mask, by simp⟩

theorem each_char {d : Char} (hdigit : d.isDigit = false) (hspace : space d = false) :
    (char d).Each (Alike mask []) := ⟨mask_beq hdigit hspace, by simp⟩

theorem each_digits (m n : Nat) : (digits m n).Each (Alike mask []) :=
  each_isDigit.between m n

theorem each_phoneSeparator : phoneSeparator.Each (Alike mask []) := by
  refine Each.opt ⟨fun c => ?_, by simp⟩
  show (mask c == '-' || mask c == '.') = (c == '-' || c == '.')
  rw [mask_beq (by decide) (by decide), mask_beq (by decide) (by decide)]

theorem phone_blind : PHONE_PATTERN.Blind mask [] where
  parts := by
    simp only [PHONE_PATTERN, List.forall_mem_cons]
    have hplus := each_char (d := '+') (by decide) (by decide)
    have hopen := each_char (d := '(') (by decide) (by decide)
    have hclose := each_char (d := ')') (by decide) (by decide)
    exact ⟨Each.opt ⟨hplus.opt, each_digits 1 3, each_phoneSeparator⟩, hopen.opt, each_digits 2 4,
      hclose.opt, each_phoneSeparator, each_digits 3 4, each_phoneSeparator, each_digits 3 4,
      by simp⟩
  start := fun _ _ => rfl
  stop := fun _ _ => rfl

section Boundary

variable {data : CharacterData}

variable (data) in
/-- The character data do not tell digits apart, nor white space. -/
theorem data_mask (c : Char) : data.isWord (mask c) = data.isWord c ∧
    data.isLetterOrDigit (mask c) = data.isLetterOrDigit c ∧
    data.isNonSpacingMark (mask c) = data.isNonSpacingMark c ∧
    (0x10000 ≤ (mask c).val ↔ 0x10000 ≤ c.val) := by
  rcases mask_cases c with ⟨hc, hmask⟩ | ⟨hc, hmask⟩ | ⟨-, -, hmask⟩
  · have hbase : data.IsBase c := CharacterData.isBase_of_isDigit hc
    rw [hmask, isBase_zero.isWord, hbase.isWord, isBase_zero.letter, hbase.letter,
      (data.ascii '0' (by decide)).2, (data.ascii c (CharacterData.lt_of_isDigit hc)).2]
    exact ⟨rfl, rfl, rfl, iff_of_false (by decide) (UInt32.not_le.mpr hbase.basic)⟩
  · have hsep := separator_of_space hc
    have hblank : separator ' ' = true := rfl
    obtain ⟨hword, hmark⟩ := not_word_of_separator data hsep
    obtain ⟨hword', hmark'⟩ := not_word_of_separator data hblank
    obtain ⟨hlt, halphanum, -⟩ := separator_ascii hsep
    have hbasic : ¬ 0x10000 ≤ c.val := UInt32.not_le.mpr (UInt32.lt_trans hlt (by decide))
    rw [hmask, hword, hword', hmark, hmark', (data.ascii c hlt).1, (data.ascii ' ' (by decide)).1,
      halphanum]
    exact ⟨rfl, rfl, rfl, iff_of_false (by decide) hbasic⟩
  · rw [hmask]
    exact ⟨rfl, rfl, rfl, Iff.rfl⟩

theorem hasBaseCharacter_mask (before : List Char) :
    data.hasBaseCharacter (before.map mask) = data.hasBaseCharacter before := by
  induction before with
  | nil => rfl
  | cons c before ih =>
    obtain ⟨-, hletter, hmark, hbasic⟩ := data_mask data c
    rw [List.map_cons, CharacterData.hasBaseCharacter, CharacterData.hasBaseCharacter, hletter,
      hmark, ih]
    simp only [hbasic]

theorem wordBefore_mask (before : List Char) :
    data.wordBefore (before.map mask) = data.wordBefore before := by
  cases before with
  | nil => rfl
  | cons c before =>
    obtain ⟨hword, -, hmark, -⟩ := data_mask data c
    rw [List.map_cons, CharacterData.wordBefore, CharacterData.wordBefore, hword, hmark,
      ← List.map_cons, hasBaseCharacter_mask]

theorem wordAfter_mask (before s : List Char) :
    data.wordAfter (before.map mask) (s.map mask) = data.wordAfter before s := by
  cases s with
  | nil => rfl
  | cons c s =>
    obtain ⟨hword, -, hmark, -⟩ := data_mask data c
    rw [List.map_cons, CharacterData.wordAfter, CharacterData.wordAfter, hword, hmark,
      hasBaseCharacter_mask]

theorem boundary_mask (before s : List Char) :
    data.boundary (before.map mask) (s.map mask ++ []) = data.boundary before s := by
  rw [List.append_nil, CharacterData.boundary, CharacterData.boundary, wordBefore_mask,
    wordAfter_mask]

theorem card_blind : (CREDIT_CARD_PATTERN data).Blind mask [] where
  parts := by
    simp only [CREDIT_CARD_PATTERN, List.forall_mem_cons]
    have hdigits : (Regex.times 4 (.one Char.isDigit)).Each (Alike mask []) :=
      each_isDigit.times 4
    have hseparator : (Regex.one fun c => c == '-' || space c).Each (Alike mask []) :=
      ⟨separator_mask, by simp⟩
    have hgroup : cardGroup.Each (Alike mask []) := ⟨hdigits, hseparator.opt⟩
    exact ⟨hgroup.times 3, hdigits, by simp⟩
  start := boundary_mask
  stop := boundary_mask

end Boundary

/-! ## Ways of writing a card number -/

/-- What stands between two groups of a card number. -/
inductive Joint where
  | joined
  | hyphen
  | space

def Joint.text : Joint → List Char
  | .joined => []
  | .hyphen => ['-']
  | .space => [' ']

/-- What stands before the next group, and the text from that group on. -/
def joint : List Char → Joint × List Char
  | [] => (.joined, [])
  | c :: s =>
    if c == '-' then (.hyphen, s) else if space c then (.space, s) else (.joined, c :: s)

structure Joints where
  first : Joint
  second : Joint
  third : Joint

/-- What stands between the groups of a card number. -/
def joints (card : List Char) : Joints :=
  let first := joint (card.drop 4)
  let second := joint (first.2.drop 4)
  ⟨first.1, second.1, (joint (second.2.drop 4)).1⟩

/-- What the phone pattern leaves of a card number. -/
inductive PhoneRest where
  | everything
  /-- so many groups at the start, and so many at the end -/
  | groups (left right : Nat)
  /-- the last digit -/
  | digit

/-- Between white space, three groups and two that are joined are taken whole, of four groups the
last one stays, or the last digit if all are joined. -/
def phoneRest : Joints → PhoneRest
  | ⟨.joined, .joined, .joined⟩ => .digit
  | ⟨.space, .space, .joined⟩ => .groups 2 0
  | ⟨.space, .space, _⟩ => .everything
  | ⟨.space, .joined, .space⟩ => .groups 1 1
  | ⟨.space, .hyphen, .space⟩ => .everything
  | ⟨.space, _, _⟩ => .groups 1 0
  | ⟨.joined, .space, .joined⟩ => .groups 0 0
  | ⟨.joined, .space, _⟩ => .groups 0 2
  | ⟨.hyphen, .space, .joined⟩ => .groups 2 0
  | ⟨.hyphen, .space, _⟩ => .everything
  | _ => .groups 0 1

/-- Of `n` groups in a row, with `k` more before them and `m` after them, none is left when the card
pattern takes four groups at a time from the left. -/
def Taken (k n m : Nat) : Prop := n = 0 ∨ k + n ≤ 4 * ((k + n + m) / 4)

/-- None of the groups that the phone pattern leaves stays, with `k` groups before the card number
and `m` after it. -/
def PhoneRest.Taken (k m : Nat) : PhoneRest → Prop
  | .everything => PiiRedactor.Taken k 4 m
  | .groups left right => PiiRedactor.Taken k left 0 ∧ PiiRedactor.Taken 0 right m
  | .digit => False

instance (k n m : Nat) : Decidable (Taken k n m) := inferInstanceAs (Decidable (_ ∨ _))

instance (k m : Nat) : (rest : PhoneRest) → Decidable (rest.Taken k m)
  | .everything => inferInstanceAs (Decidable (PiiRedactor.Taken k 4 m))
  | .groups _ _ => inferInstanceAs (Decidable (_ ∧ _))
  | .digit => inferInstanceAs (Decidable False)

def blankCard (j : Joints) : List Char :=
  zeros ++ (j.first.text ++ (zeros ++ (j.second.text ++ (zeros ++ (j.third.text ++ zeros)))))

theorem mask_eq_hyphen {c : Char} (h : mask c = '-') : c = '-' := by
  rcases mask_cases c with ⟨-, hmask⟩ | ⟨-, hmask⟩ | ⟨-, -, hmask⟩
  · rw [h] at hmask
    cases hmask
  · rw [h] at hmask
    cases hmask
  · exact hmask.symm.trans h

theorem joint_append {v t : List Char} {j : Joint} (hv : v.map mask = j.text)
    (ht : ∃ c u, t = c :: u ∧ c.isDigit = true) : joint (v ++ t) = (j, t) := by
  cases j with
  | joined =>
    obtain ⟨d, u, rfl, hd⟩ := ht
    obtain rfl : v = [] := List.map_eq_nil_iff.mp hv
    have hhyphen : (d == '-') = false := by
      rw [beq_eq_false_iff_ne]
      rintro rfl
      cases hd
    simp [joint, hhyphen, not_space_of_digit hd]
  | hyphen =>
    obtain ⟨c, rfl, hc⟩ := List.map_eq_singleton_iff.mp hv
    rw [mask_eq_hyphen hc]
    rfl
  | space =>
    obtain ⟨c, rfl, hc⟩ := List.map_eq_singleton_iff.mp hv
    have hspace : space c = true := by
      rw [← space_mask, hc]
      rfl
    have hhyphen : (c == '-') = false := by
      rw [← mask_beq (by decide) (by decide), hc]
      rfl
    simp [joint, hhyphen, hspace]

structure IsGroup (g : List Char) : Prop where
  length : g.length = 4
  digits : ∀ c ∈ g, c.isDigit = true

theorem IsGroup.map_mask {g : List Char} (h : IsGroup g) : g.map mask = zeros := by
  refine eq_zeros (by rw [List.length_map, h.length]) ?_ (plain_mask g)
  intro c hc
  obtain ⟨d, hd, rfl⟩ := List.mem_map.mp hc
  rw [isDigit_mask, h.digits d hd]

theorem IsGroup.starts {g : List Char} (h : IsGroup g) (t : List Char) :
    ∃ c u, g ++ t = c :: u ∧ c.isDigit = true := by
  cases g with
  | nil => cases h.length
  | cons c g => exact ⟨c, g ++ t, rfl, h.digits c List.mem_cons_self⟩

theorem isGroup_of_spells {g : List Char} (h : (Regex.times 4 (.one Char.isDigit)).Spells g) :
    IsGroup g := by
  obtain ⟨hlen, hdigits⟩ := spells_times_one.mp h
  exact ⟨hlen, hdigits⟩

theorem cardGroup_joint {m : List Char} (h : cardGroup.Spells m) :
    ∃ g v j, m = g ++ v ∧ IsGroup g ∧ v.map mask = Joint.text j := by
  obtain ⟨g, v, hg, hv, rfl⟩ := h
  rcases hv with ⟨c, hc, rfl⟩ | hnil
  · cases hhyphen : c == '-' with
    | true =>
      obtain rfl := beq_iff_eq.mp hhyphen
      exact ⟨g, _, .hyphen, rfl, isGroup_of_spells hg, rfl⟩
    | false =>
      have hspace : space c = true := by simpa [hhyphen] using hc
      rcases mask_cases c with ⟨hdigit, -⟩ | ⟨-, hmask⟩ | ⟨-, hother, -⟩
      · rw [not_digit_of_space hspace] at hdigit
        cases hdigit
      · exact ⟨g, _, .space, rfl, isGroup_of_spells hg, by rw [List.map_singleton, hmask]; rfl⟩
      · rw [hspace] at hother
        cases hother
  · obtain rfl : v = [] := hnil
    exact ⟨g, _, .joined, rfl, isGroup_of_spells hg, rfl⟩

theorem map_mask_card {data : CharacterData} {card : List Char}
    (h : (CREDIT_CARD_PATTERN data).IsWord card) : card.map mask = blankCard (joints card) := by
  obtain ⟨words, hspells, rfl⟩ := h
  cases hspells with
  | cons hgroups hrest =>
    cases hrest with
    | cons hlast hnil =>
      cases hnil
      rename_i g₄
      have h₄ := isGroup_of_spells hlast
      obtain ⟨_, _, h₁, ⟨_, _, h₂, ⟨_, _, h₃, hempty, rfl⟩, rfl⟩, rfl⟩ := hgroups
      obtain rfl := hempty
      obtain ⟨g₁, v₁, j₁, rfl, h₁, hv₁⟩ := cardGroup_joint h₁
      obtain ⟨g₂, v₂, j₂, rfl, h₂, hv₂⟩ := cardGroup_joint h₂
      obtain ⟨g₃, v₃, j₃, rfl, h₃, hv₃⟩ := cardGroup_joint h₃
      simp only [List.flatten_cons, List.flatten_nil, List.append_nil, List.append_assoc]
      have hdrop : ∀ {g : List Char} (t : List Char), IsGroup g → (g ++ t).drop 4 = t := by
        intro g t hg
        rw [← hg.length, List.drop_left]
      have hjoints : joints (g₁ ++ (v₁ ++ (g₂ ++ (v₂ ++ (g₃ ++ (v₃ ++ g₄)))))) = ⟨j₁, j₂, j₃⟩ := by
        simp only [joints, hdrop _ h₁, joint_append hv₁ (h₂.starts _), hdrop _ h₂,
          joint_append hv₂ (h₃.starts _), hdrop _ h₃]
        have hthird := joint_append hv₃ (h₄.starts [])
        rw [List.append_nil] at hthird
        rw [hthird]
      rw [hjoints]
      simp only [List.map_append, h₁.map_mask, h₂.map_mask, h₃.map_mask, h₄.map_mask, hv₁, hv₂, hv₃,
        blankCard]

/-! ## What the phone pattern leaves -/

/-- The groups at the start that stay, with what follows them. -/
def leftGroups (j : Joints) (n : Nat) : List Char :=
  ([j.first, j.second].take n).flatMap fun k => zeros ++ k.text

/-- The groups at the end that stay. -/
def rightGroups (j : Joints) : Nat → List Char
  | 0 => []
  | 1 => zeros
  | _ => zeros ++ j.third.text ++ zeros

/-- What stands between them then. -/
def taken : Joints → List Char
  | ⟨.joined, .space, .joined⟩ => REDACTED_PHONE.toList ++ ' ' :: REDACTED_PHONE.toList
  | ⟨.joined, .space, _⟩ => REDACTED_PHONE.toList ++ [' ']
  | ⟨.space, .joined, .space⟩ => REDACTED_PHONE.toList ++ [' ']
  | ⟨.space, _, _⟩ => REDACTED_PHONE.toList
  | ⟨_, .space, _⟩ => REDACTED_PHONE.toList
  | ⟨_, _, j⟩ => REDACTED_PHONE.toList ++ j.text

def PhoneRest.text (j : Joints) : PhoneRest → List Char
  | .everything => blankCard j
  | .groups left right =>
    leftGroups j left ++ (taken j ++ rightGroups j right)
  | .digit => REDACTED_PHONE.toList ++ ['0']

theorem phone_blankCard (j : Joints) :
    PHONE_PATTERN.replaceAll (fun _ => REDACTED_PHONE.toList) (blankCard j) =
      (phoneRest j).text j := by
  obtain ⟨first, second, third⟩ := j
  cases first <;> cases second <;> cases third <;> rfl

section Rest

variable {data : CharacterData} {j : Joints} {left right : Nat}

theorem Joint.text_eq (k : Joint) : k.text = [] ∨ ∃ s, separator s = true ∧ k.text = [s] := by
  cases k with
  | joined => exact .inl rfl
  | hyphen => exact .inr ⟨'-', rfl, rfl⟩
  | space => exact .inr ⟨' ', rfl, rfl⟩

theorem Joint.separator_text (k : Joint) : ∀ s ∈ k.text, separator s = true := by
  rcases k.text_eq with htext | ⟨s, hs, htext⟩
  · rw [htext]
    exact List.forall_mem_nil _
  · rw [htext]
    exact List.forall_mem_singleton.mpr hs

theorem row_of_everything (h : phoneRest j = .everything) :
    ∃ ss, ss.length = 3 ∧ (∀ s ∈ ss, separator s = true) ∧ blankCard j = row ss := by
  obtain ⟨first, second, third⟩ := j
  have hsep : ∀ s ∈ first.text ++ (second.text ++ third.text), separator s = true :=
    List.forall_mem_append.mpr ⟨first.separator_text,
      List.forall_mem_append.mpr ⟨second.separator_text, third.separator_text⟩⟩
  refine ⟨_, ?_, hsep, ?_⟩
  · cases first <;> cases second <;> cases third <;> cases h <;> rfl
  · cases first <;> cases second <;> cases third <;> cases h <;> rfl

theorem leftGroups_eq (h : phoneRest j = .groups left right) :
    (left = 0 ∧ leftGroups j left = []) ∨ ∃ ss, ss.length + 1 = left ∧
      (∀ s ∈ ss, separator s = true) ∧ leftGroups j left = row ss ++ [' '] := by
  obtain ⟨first, second, third⟩ := j
  cases first <;> cases second <;> cases third <;> cases h
  all_goals first
    | exact .inl ⟨rfl, rfl⟩
    | exact .inr ⟨[], rfl, List.forall_mem_nil _, rfl⟩
    | exact .inr ⟨['-'], rfl, List.all_eq_true.mp rfl, rfl⟩
    | exact .inr ⟨[' '], rfl, List.all_eq_true.mp rfl, rfl⟩

theorem rightGroups_eq (h : phoneRest j = .groups left right) :
    (right = 0 ∧ rightGroups j right = []) ∨ ∃ ss, ss.length + 1 = right ∧
      (∀ s ∈ ss, separator s = true) ∧ rightGroups j right = row ss := by
  obtain ⟨first, second, third⟩ := j
  cases first <;> cases second <;> cases third <;> cases h
  all_goals first
    | exact .inl ⟨rfl, rfl⟩
    | exact .inr ⟨[], rfl, List.forall_mem_nil _, rfl⟩
    | exact .inr ⟨['-'], rfl, List.all_eq_true.mp rfl, rfl⟩
    | exact .inr ⟨[' '], rfl, List.all_eq_true.mp rfl, rfl⟩

theorem taken_cases (j : Joints) :
    taken j = REDACTED_PHONE.toList ++ ' ' :: REDACTED_PHONE.toList ∨
      ∃ w, taken j = REDACTED_PHONE.toList ++ w ∧
        (w = [] ∨ ∃ s, separator s = true ∧ w = [s]) := by
  unfold taken
  split
  · exact .inl rfl
  · exact .inr ⟨[' '], rfl, Joint.text_eq .space⟩
  · exact .inr ⟨[' '], rfl, Joint.text_eq .space⟩
  · exact .inr ⟨[], (List.append_nil _).symm, .inl rfl⟩
  · exact .inr ⟨[], (List.append_nil _).symm, .inl rfl⟩
  · exact .inr ⟨_, rfl, Joint.text_eq _⟩

theorem taken_eq (j : Joints) : ∃ v w, taken j = '[' :: (v ++ ']' :: w) ∧
    '0' ∉ taken j ∧ (w = [] ∨ ∃ s, separator s = true ∧ w = [s]) := by
  have hphone : REDACTED_PHONE.toList = '[' :: ("PHONE_REDACTED".toList ++ [']']) := by decide
  have hzero : '0' ∉ REDACTED_PHONE.toList := by decide
  rcases taken_cases j with htaken | ⟨w, htaken, hw⟩
  · refine ⟨"PHONE_REDACTED".toList ++ "] [PHONE_REDACTED".toList, [], ?_, ?_, .inl rfl⟩
    · rw [htaken]
      decide
    · rw [htaken]
      decide
  · refine ⟨"PHONE_REDACTED".toList, w, ?_, ?_, hw⟩
    · rw [htaken, hphone]
      simp
    · rw [htaken, List.mem_append, not_or]
      refine ⟨hzero, ?_⟩
      rcases hw with rfl | ⟨s, hs, rfl⟩
      · exact List.not_mem_nil
      · rw [List.mem_singleton]
        rintro rfl
        cases hs

theorem groupsNext_of_not_separator {word : List Char → Bool} {c : Char} {s : List Char}
    (hc : separator c = false) : groupsNext word (c :: s) = 0 := by
  rw [groupsNext.eq_def]
  split
  · rename_i heq
    obtain ⟨rfl, -⟩ := List.cons.inj heq
    rw [hc]
    rfl
  · rfl

theorem groupsNext_of_not_digit {word : List Char → Bool} {c d : Char} {s : List Char}
    (hd : d.isDigit = false) : groupsNext word (c :: d :: s) = 0 := by
  rw [groupsNext.eq_def]
  split
  · rename_i heq
    obtain ⟨-, htail⟩ := List.cons.inj heq
    obtain ⟨rfl, -⟩ := List.cons.inj htail
    simp [hd]
  · rfl

theorem groupsAfter_taken (j : Joints) (t : List Char) :
    groupsAfter data (' ' :: (taken j ++ t)) = 0 := by
  obtain ⟨v, w, htaken, -, -⟩ := taken_eq j
  rw [htaken]
  exact groupsNext_of_not_digit rfl

theorem wordBefore_bracket (before : List Char) : data.wordBefore (']' :: before) = false := by
  obtain ⟨hletter, hmark⟩ := data.ascii ']' (by decide)
  rw [CharacterData.wordBefore, CharacterData.isWord, hletter, hmark]
  rfl

theorem before_taken (j : Joints) (t : List Char) :
    data.wordBefore (t ++ taken j).reverse = false ∧ groupsBefore data (t ++ taken j) = 0 := by
  obtain ⟨v, w, htaken, -, hw⟩ := taken_eq j
  rw [groupsBefore, htaken]
  rcases hw with rfl | ⟨s, hs, rfl⟩
  · have hreverse : (t ++ '[' :: (v ++ [']'])).reverse = ']' :: (t ++ '[' :: v).reverse := by simp
    rw [hreverse]
    exact ⟨wordBefore_bracket _, groupsNext_of_not_separator rfl⟩
  · have hreverse : (t ++ '[' :: (v ++ ']' :: [s])).reverse =
        s :: ']' :: (t ++ '[' :: v).reverse := by simp
    rw [hreverse]
    exact ⟨wordBefore_separator hs, groupsNext_of_not_digit rfl⟩

variable {x y : List Char}

/-- No digit of the part `t` of a text stays when the card pattern is replaced. -/
def Hides (data : CharacterData) (x t y : List Char) : Prop :=
  ∀ i, t[i]? = some '0' →
    stays ((CREDIT_CARD_PATTERN data).cut [] (x ++ (t ++ y))) (x.length + i) = false

theorem hides_nil : Hides data x [] y := by
  intro i hi
  cases hi

theorem hides_append {t u : List Char} :
    Hides data x (t ++ u) y ↔ Hides data x t (u ++ y) ∧ Hides data (x ++ t) u y := by
  unfold Hides
  rw [forall_getElem?_append]
  simp only [List.append_assoc, List.length_append, Nat.add_assoc]

theorem hides_of_not_mem {t : List Char} (ht : '0' ∉ t) : Hides data x t y :=
  forall_getElem?_of_not_mem ht

theorem hides_row {ss : List Char} (hss : ∀ s ∈ ss, separator s = true)
    (hplain : Plain (x ++ (row ss ++ y))) (hrun : NoRun (x ++ (row ss ++ y)))
    (hx : data.wordBefore x.reverse = false) (hy : data.wordAfter ['0'] y = false) :
    Hides data x (row ss) y ↔ Taken (groupsBefore data x) (ss.length + 1) (groupsAfter data y) := by
  rw [Hides, hidden_row hss hplain hrun hx hy, Taken]
  constructor
  · exact .inr
  · rintro (h | h)
    · cases h
    · exact h

theorem hides_leftGroups (h : phoneRest j = .groups left right)
    (hplain : Plain (x ++ (leftGroups j left ++ (taken j ++ y))))
    (hrun : NoRun (x ++ (leftGroups j left ++ (taken j ++ y))))
    (hx : data.wordBefore x.reverse = false) :
    Hides data x (leftGroups j left) (taken j ++ y) ↔
      Taken (groupsBefore data x) left 0 := by
  rcases leftGroups_eq h with ⟨rfl, hleft⟩ | ⟨ss, rfl, hss, hleft⟩
  · rw [hleft]
    exact iff_of_true hides_nil (.inl rfl)
  · rw [hleft, List.append_assoc] at hplain hrun
    rw [hleft, hides_append, and_iff_left (hides_of_not_mem (by decide)),
      hides_row hss hplain hrun hx (wordAfter_separator rfl), List.singleton_append,
      groupsAfter_taken]

theorem hides_rightGroups (h : phoneRest j = .groups left right)
    (hplain : Plain (x ++ taken j ++ (rightGroups j right ++ y)))
    (hrun : NoRun (x ++ taken j ++ (rightGroups j right ++ y)))
    (hy : data.wordAfter ['0'] y = false) :
    Hides data (x ++ taken j) (rightGroups j right) y ↔
      Taken 0 right (groupsAfter data y) := by
  obtain ⟨hword, hbefore⟩ := @before_taken data j x
  rcases rightGroups_eq h with ⟨rfl, hright⟩ | ⟨ss, rfl, hss, hright⟩
  · rw [hright]
    exact iff_of_true hides_nil (.inl rfl)
  · rw [hright] at hplain hrun ⊢
    rw [hides_row hss hplain hrun hword hy, hbefore]

theorem matchAt_digit {before : List Char} (hy : data.wordAfter ['0'] y = false) :
    (CREDIT_CARD_PATTERN data).matchAt before ('0' :: y) = none := by
  refine matchAt_eq_none.mpr fun m hm => ?_
  have hmask := map_mask_card hm.isWord
  have hcut := hm.cut
  -- a card number has a second digit
  cases htext : m.text with
  | nil => exact hm.text_ne_nil htext
  | cons c u =>
    rw [htext] at hmask hcut
    obtain ⟨-, htail⟩ := List.cons.inj hmask
    cases u with
    | nil => cases htail
    | cons d u =>
      obtain ⟨hd, -⟩ := List.cons.inj htail
      have hdigit : d.isDigit = true := by
        rw [← isDigit_mask, hd]
        rfl
      have hrest : y = d :: (u ++ m.rest) := (List.cons.inj hcut).2
      rw [hrest, (CharacterData.isBase_of_isDigit hdigit).wordAfter] at hy
      cases hy

theorem not_hides_digit (hy : data.wordAfter ['0'] y = false) :
    ¬ Hides data (x ++ REDACTED_PHONE.toList) ['0'] y := by
  intro h
  obtain ⟨ps, hps, hcut⟩ := @pieces_across (CREDIT_CARD_PATTERN data) []
    (x ++ "[PHONE_REDACTED".toList) ('0' :: y) ']' fun m hm => hm.not_mem rfl
  have htext : x ++ REDACTED_PHONE.toList ++ (['0'] ++ y) =
      x ++ "[PHONE_REDACTED".toList ++ ']' :: '0' :: y := by simp [REDACTED_PHONE]
  have hplace : (x ++ REDACTED_PHONE.toList).length + 0 = (source ps).length + 1 := by
    rw [hps]
    simp [REDACTED_PHONE]
  have hdigit := h 0 rfl
  rw [htext, Pattern.cut, hcut, pieces_kept (matchAt_digit hy), List.map_append, hplace,
    stays_append] at hdigit
  cases hdigit

/-- What the phone pattern leaves is taken if and only if it makes whole card numbers together with
the groups on both sides. -/
theorem hides_rest (hplain : Plain (x ++ ((phoneRest j).text j ++ y)))
    (hrun : NoRun (x ++ ((phoneRest j).text j ++ y)))
    (hx : data.wordBefore x.reverse = false) (hy : data.wordAfter ['0'] y = false) :
    Hides data x ((phoneRest j).text j) y ↔
      (phoneRest j).Taken (groupsBefore data x) (groupsAfter data y) := by
  cases h : phoneRest j with
  | everything =>
    obtain ⟨ss, hlen, hss, hrow⟩ := row_of_everything h
    rw [h, PhoneRest.text, hrow] at hplain hrun
    rw [PhoneRest.text, hrow, hides_row hss hplain hrun hx hy, hlen]
    rfl
  | groups left right =>
    rw [h, PhoneRest.text] at hplain hrun
    obtain ⟨-, -, -, hzero, -⟩ := taken_eq j
    rw [PhoneRest.text, hides_append, hides_append, and_iff_right (hides_of_not_mem hzero),
      List.append_assoc, hides_leftGroups h (by simpa using hplain) (by simpa using hrun) hx,
      hides_rightGroups h (by simpa using hplain) (by simpa using hrun) hy]
    rfl
  | digit =>
    rw [PhoneRest.text, hides_append]
    exact iff_of_false (fun hall => not_hides_digit hy hall.2) id

end Rest

/-! ## Before the card pattern -/

def withoutContacts (text : List Char) : List Char :=
  PHONE_PATTERN.replaceAll (fun _ => REDACTED_PHONE.toList)
    (EMAIL_PATTERN.replaceAll (fun _ => REDACTED_EMAIL.toList) text)

theorem redactAll_eq (data : CharacterData) (text : List Char) : redactAll data text =
    (CREDIT_CARD_PATTERN data).replaceAll (fun _ => REDACTED_CARD.toList) (withoutContacts text) :=
  rfl

theorem space_mem {c : Char} (h : space c = true) :
    c ∈ [' ', '\t', '\n', '\x0B', '\x0C', '\r'] := by
  simpa [space, or_assoc] using h

theorem avoids_space {c : Char} (h : space c = true) :
    EMAIL_PATTERN.parts.all (·.avoids c) = true ∧ PHONE_PATTERN.parts.all (·.avoids c) = true := by
  have hall : [' ', '\t', '\n', '\x0B', '\x0C', '\r'].all (fun d =>
      EMAIL_PATTERN.parts.all (·.avoids d) && PHONE_PATTERN.parts.all (·.avoids d)) = true := rfl
  exact Bool.and_eq_true_iff.mp (List.all_eq_true.mp hall c (space_mem h))

theorem email_free : EMAIL_PATTERN.Free := ⟨fun _ _ => rfl, fun _ _ => rfl⟩

theorem phone_free : PHONE_PATTERN.Free := ⟨fun _ _ => rfl, fun _ _ => rfl⟩

section Spaced

variable {u v : List Char}

theorem withoutContacts_append (hv : ∀ c ∈ v.head?, space c = true) :
    withoutContacts (u ++ v) = withoutContacts u ++ withoutContacts v := by
  have hemail := fun c hc => (avoids_space (hv c hc)).1
  have hphone := fun c hc => (avoids_space (hv c hc)).2
  rw [withoutContacts, replaceAll_append email_free hemail, replaceAll_append phone_free]
  · rfl
  · rw [head?_replaceAll email_free hemail]
    exact hphone

theorem withoutContacts_append' (hu : ∀ c ∈ u.getLast?, space c = true) :
    withoutContacts (u ++ v) = withoutContacts u ++ withoutContacts v := by
  have hemail := fun c hc => (avoids_space (hu c hc)).1
  have hphone := fun c hc => (avoids_space (hu c hc)).2
  rw [withoutContacts, replaceAll_append' email_free hemail, replaceAll_append' phone_free]
  · rfl
  · rw [getLast?_replaceAll email_free hemail]
    exact hphone

theorem head?_withoutContacts (hv : ∀ c ∈ v.head?, space c = true) :
    (withoutContacts v).head? = v.head? := by
  have hemail := fun c hc => (avoids_space (hv c hc)).1
  have hphone := fun c hc => (avoids_space (hv c hc)).2
  have hhead := head?_replaceAll (f := fun _ => REDACTED_EMAIL.toList) email_free hemail
  rw [withoutContacts, head?_replaceAll phone_free (by rw [hhead]; exact hphone), hhead]

theorem getLast?_withoutContacts (hu : ∀ c ∈ u.getLast?, space c = true) :
    (withoutContacts u).getLast? = u.getLast? := by
  have hemail := fun c hc => (avoids_space (hu c hc)).1
  have hphone := fun c hc => (avoids_space (hu c hc)).2
  have hlast := getLast?_replaceAll (f := fun _ => REDACTED_EMAIL.toList) email_free hemail
  rw [withoutContacts, getLast?_replaceAll phone_free (by rw [hlast]; exact hphone), hlast]

end Spaced

theorem isWord_phone {m : List Char} (hlen : m.length = 8) (hm : ∀ c ∈ m, c.isDigit = true) :
    PHONE_PATTERN.IsWord m := by
  have hdigits : ∀ {k n : Nat} {t : List Char}, k ≤ n → t.length = k → (∀ c ∈ t, c ∈ m) →
      (digits k n).Spells t := by
    intro k n t hkn ht hsub
    exact (spells_between_one hkn).mpr ⟨by omega, by omega, fun c hc => hm c (hsub c hc)⟩
  have hnone : ∀ r : Regex, r.opt.Spells [] := fun r => .inr rfl
  refine ⟨[[], [], m.take 2, [], [], (m.drop 2).take 3, [], m.drop 5], ?_, ?_⟩
  · refine .cons (hnone _) (.cons (hnone _) (.cons (hdigits (by decide) (by simp [hlen]) ?_)
      (.cons (hnone _) (.cons (hnone _) (.cons (hdigits (by decide) (by simp [hlen]) ?_)
      (.cons (hnone _) (.cons (hdigits (by decide) (by simp [hlen]) ?_) .nil)))))))
    · exact fun c hc => List.mem_of_mem_take hc
    · exact fun c hc => List.mem_of_mem_drop (List.mem_of_mem_take hc)
    · exact fun c hc => List.mem_of_mem_drop hc
  · have hrest : (m.drop 2).take 3 ++ m.drop 5 = m.drop 2 := by
      rw [show m.drop 5 = (m.drop 2).drop 3 by rw [List.drop_drop], List.take_append_drop]
    simp [hrest]

/-- The first two replacements leave no eight digits together. -/
theorem noRun_withoutContacts (text : List Char) : NoRun ((withoutContacts text).map mask) := by
  intro m hm hlen hdigits
  have hfind : PHONE_PATTERN.find (withoutContacts text) = false :=
    Clear.find_replaced (@phone_clear "PHONE_REDACTED".toList (by decide))
  obtain ⟨t, ht, rfl⟩ := List.infix_map_iff.mp hm
  have hword : PHONE_PATTERN.IsWord t := by
    refine isWord_phone (by simpa using hlen) fun c hc => ?_
    rw [← isDigit_mask]
    exact hdigits _ (List.mem_map_of_mem hc)
  exact phone_free.find_eq_false.mp hfind t hword ht

section Card

variable {data : CharacterData} {card : List Char}

theorem email_card (h : (CREDIT_CARD_PATTERN data).IsWord card) :
    EMAIL_PATTERN.replaceAll (fun _ => REDACTED_EMAIL.toList) card = card := by
  refine replaceAll_of_find (email_free.find_eq_false.mpr ?_)
  rintro _ ⟨words, hspells, rfl⟩ hpart
  -- an e-mail address has an at sign
  have hat : '@' ∈ words.flatten := by
    cases hspells with
    | cons _ hrest =>
      cases hrest with
      | cons hat _ =>
        obtain ⟨c, hc, rfl⟩ := hat
        obtain rfl := beq_iff_eq.mp hc
        simp
  have hmem : '@' ∈ card.map mask := List.mem_map.mpr ⟨'@', hpart.subset hat, rfl⟩
  rw [map_mask_card h] at hmem
  have hnot : ∀ a b c : Joint, '@' ∉ blankCard ⟨a, b, c⟩ := by
    intro a b c
    cases a <;> cases b <;> cases c <;> decide
  exact hnot _ _ _ hmem

theorem withoutContacts_card (h : (CREDIT_CARD_PATTERN data).IsWord card) :
    withoutContacts card =
      fill REDACTED_PHONE.toList (PHONE_PATTERN.cut [] (card.map mask)) card := by
  have hcut := cut_map phone_blind [] card
  rw [List.map_nil] at hcut
  rw [withoutContacts, email_card h, replaceAll_eq_fill, hcut]

/-- What is left of the card number, with `0` for every digit. -/
theorem map_mask_withoutContacts (h : (CREDIT_CARD_PATTERN data).IsWord card) :
    (withoutContacts card).map mask = (phoneRest (joints card)).text (joints card) := by
  rw [withoutContacts_card h, ← fill_map (by decide), map_mask_card h, ← replaceAll_eq_fill,
    phone_blankCard]

def SameButDigits (s t : List Char) : Prop :=
  List.Forall₂ (fun a b => a = b ∨ a.isDigit = true ∧ b.isDigit = true) s t

theorem SameButDigits.map_mask {s t : List Char} (h : SameButDigits s t) :
    s.map mask = t.map mask := by
  induction h with
  | nil => rfl
  | cons hab _ ih =>
    rw [List.map_cons, List.map_cons, ih]
    rcases hab with rfl | ⟨ha, hb⟩
    · rfl
    · rw [mask, mask, if_pos ha, if_pos hb]

theorem SameButDigits.getElem? {s t : List Char} (h : SameButDigits s t) (i : Nat) :
    s[i]? = t[i]? ∨ (s.map mask)[i]? = some '0' := by
  induction h generalizing i with
  | nil => exact .inl rfl
  | @cons a b s t hab _ ih =>
    cases i with
    | zero =>
      rcases hab with rfl | ⟨ha, -⟩
      · exact .inl rfl
      · right
        rw [List.map_cons, List.getElem?_cons_zero, mask, if_pos ha]
    | succ i => exact ih i

theorem SameButDigits.isWord {card' : List Char} (h : SameButDigits card card')
    (hcard : (CREDIT_CARD_PATTERN data).IsWord card) : (CREDIT_CARD_PATTERN data).IsWord card' := by
  rw [← isWord_map card_blind, ← h.map_mask, isWord_map card_blind]
  exact hcard

def other (c : Char) : Char := if c.isDigit then (if c == '0' then '1' else '0') else c

theorem other_ne {c : Char} (h : c.isDigit = true) : other c ≠ c := by
  rw [other, if_pos h]
  cases hzero : c == '0' with
  | true =>
    rw [beq_iff_eq.mp hzero]
    decide
  | false =>
    rw [if_neg (by simp)]
    exact fun heq => (beq_eq_false_iff_ne.mp hzero) heq.symm

theorem sameButDigits_other (s : List Char) : SameButDigits s (s.map other) := by
  refine List.forall₂_map_right_iff.mpr (List.forall₂_same.mpr fun c _ => ?_)
  unfold other
  cases hc : c.isDigit with
  | true =>
    right
    cases c == '0' <;> exact ⟨rfl, rfl⟩
  | false => exact .inl rfl

variable {before after : List Char}

/-- What is redacted of a text, by what is left of its three parts. -/
theorem redactAll_card (hbefore : ∀ c ∈ before.getLast?, space c = true)
    (hafter : ∀ c ∈ after.head?, space c = true) :
    redactAll data (before ++ (card ++ after)) = fill REDACTED_CARD.toList
      ((CREDIT_CARD_PATTERN data).cut [] ((withoutContacts before).map mask ++
        ((withoutContacts card).map mask ++ (withoutContacts after).map mask)))
      (withoutContacts before ++ (withoutContacts card ++ withoutContacts after)) := by
  have hcut := cut_map (@card_blind data) [] (withoutContacts before ++
    (withoutContacts card ++ withoutContacts after))
  rw [List.map_nil, List.map_append, List.map_append] at hcut
  rw [redactAll_eq, withoutContacts_append' hbefore, withoutContacts_append hafter,
    replaceAll_eq_fill, hcut]

theorem SameButDigits.withoutContacts {card' : List Char} (h : SameButDigits card card')
    (hcard : (CREDIT_CARD_PATTERN data).IsWord card) :
    SameButDigits (withoutContacts card) (withoutContacts card') := by
  rw [withoutContacts_card hcard, withoutContacts_card (h.isWord hcard), h.map_mask]
  exact fill_forall₂ (fun _ => .inl rfl) h _

theorem withoutContacts_other (hcard : (CREDIT_CARD_PATTERN data).IsWord card) :
    withoutContacts (card.map other) = (withoutContacts card).map other := by
  have hsame := sameButDigits_other card
  rw [withoutContacts_card (hsame.isWord hcard), ← hsame.map_mask, fill_map (by decide),
    ← withoutContacts_card hcard]

/-- The redacted text is the same for all digits of a card number if and only if none of those that
reach the card pattern stays. -/
theorem redactAll_same_iff (hbefore : ∀ c ∈ before.getLast?, space c = true)
    (hafter : ∀ c ∈ after.head?, space c = true)
    (hcard : (CREDIT_CARD_PATTERN data).IsWord card) :
    (∀ card', SameButDigits card card' → redactAll data (before ++ (card ++ after)) =
      redactAll data (before ++ (card' ++ after))) ↔
      Hides data ((withoutContacts before).map mask) ((withoutContacts card).map mask)
        ((withoutContacts after).map mask) := by
  unfold Hides
  rw [List.length_map]
  constructor
  · intro h i hi
    have hsame := h (card.map other) (sameButDigits_other card)
    have hother := (sameButDigits_other card).withoutContacts hcard
    rw [redactAll_card hbefore hafter, redactAll_card hbefore hafter, ← hother.map_mask,
      withoutContacts_other hcard, fill_between_iff (by simp)] at hsame
    obtain ⟨c, hc, hdigit⟩ : ∃ c, (withoutContacts card)[i]? = some c ∧ mask c = '0' := by
      simpa using hi
    cases hstays : stays _ _ with
    | false => rfl
    | true =>
      -- the other card number has another digit at the place
      have heq := hsame i hstays
      rw [List.getElem?_map, hc] at heq
      have hisDigit : c.isDigit = true := by
        rw [← isDigit_mask, hdigit]
        rfl
      exact absurd (Option.some.inj heq).symm (other_ne hisDigit)
  · intro h card' hsame
    have hrest := hsame.withoutContacts hcard
    rw [redactAll_card hbefore hafter, redactAll_card hbefore hafter, ← hrest.map_mask,
      fill_between_iff (List.Forall₂.length_eq hrest)]
    intro i hi
    rcases hrest.getElem? i with heq | hdigit
    · exact heq
    · rw [h i hdigit] at hi
      cases hi

theorem groupsNext_mask {word : List Char → Bool} (hword : ∀ z, word (z.map mask) = word z)
    (z : List Char) : groupsNext word (z.map mask) = groupsNext word z := by
  induction z using groupsNext.induct word with
  | case1 s a b c d rest h ih =>
    rw [groupsNext, if_pos h, ← ih]
    simp only [List.map_cons, groupsNext, separator_mask, List.all_cons, List.all_nil, isDigit_mask,
      hword]
    exact if_pos h
  | case2 s a b c d rest h =>
    rw [groupsNext, if_neg h]
    simp only [List.map_cons, groupsNext, separator_mask, List.all_cons, List.all_nil, isDigit_mask,
      hword]
    exact if_neg h
  | case3 z h =>
    rcases z with _ | ⟨s, _ | ⟨a, _ | ⟨b, _ | ⟨c, _ | ⟨d, rest⟩⟩⟩⟩⟩
    · rfl
    · rfl
    · rfl
    · rfl
    · rfl
    · exact absurd rfl (h s a b c d rest)

theorem groupsBefore_mask (x : List Char) :
    groupsBefore data (x.map mask) = groupsBefore data x := by
  rw [groupsBefore, ← List.map_reverse, groupsNext_mask wordBefore_mask]
  rfl

theorem groupsAfter_mask (y : List Char) : groupsAfter data (y.map mask) = groupsAfter data y :=
  groupsNext_mask (wordAfter_mask ['0']) y

theorem wordBefore_withoutContacts (h : ∀ c ∈ before.getLast?, space c = true) :
    data.wordBefore ((withoutContacts before).map mask).reverse = false := by
  have hlast := getLast?_withoutContacts h
  rw [← List.map_reverse, wordBefore_mask]
  rw [← List.head?_reverse] at hlast
  cases hreverse : (withoutContacts before).reverse with
  | nil => rfl
  | cons c z =>
    rw [hreverse] at hlast
    exact wordBefore_separator (separator_of_space (h c hlast.symm))

theorem wordAfter_withoutContacts (h : ∀ c ∈ after.head?, space c = true) :
    data.wordAfter ['0'] ((withoutContacts after).map mask) = false := by
  have hhead := head?_withoutContacts h
  have hmask := @wordAfter_mask data ['0'] (withoutContacts after)
  rw [show data.wordAfter ['0'] ((withoutContacts after).map mask) = _ from hmask]
  cases hafter : withoutContacts after with
  | nil => rfl
  | cons c z =>
    rw [hafter] at hhead
    exact wordAfter_separator (separator_of_space (h c hhead.symm))

end Card

theorem redactAll_card_iff (data : CharacterData) {before after card : List Char}
    (hbefore : ∀ c ∈ before.getLast?, space c = true)
    (hafter : ∀ c ∈ after.head?, space c = true)
    (hcard : (CREDIT_CARD_PATTERN data).IsWord card) :
    (∀ card', SameButDigits card card' → redactAll data (before ++ (card ++ after)) =
      redactAll data (before ++ (card' ++ after))) ↔
      (phoneRest (joints card)).Taken (groupsBefore data (withoutContacts before))
        (groupsAfter data (withoutContacts after)) := by
  have htext : (withoutContacts (before ++ (card ++ after))).map mask =
      (withoutContacts before).map mask ++ ((phoneRest (joints card)).text (joints card) ++
        (withoutContacts after).map mask) := by
    rw [withoutContacts_append' hbefore, withoutContacts_append hafter, List.map_append,
      List.map_append, map_mask_withoutContacts hcard]
  have hplain := plain_mask (withoutContacts (before ++ (card ++ after)))
  have hrun := noRun_withoutContacts (before ++ (card ++ after))
  rw [htext] at hplain hrun
  rw [redactAll_same_iff hbefore hafter hcard, map_mask_withoutContacts hcard,
    hides_rest hplain hrun (wordBefore_withoutContacts hbefore) (wordAfter_withoutContacts hafter),
    groupsBefore_mask, groupsAfter_mask]

/-- A card number between white space is redacted to the same text whatever its digits, if and only
if the groups that the phone pattern leaves make whole card numbers with those on both sides. -/
theorem card_hidden_iff (data : CharacterData) {before after card : String}
    (hbefore : ∀ c ∈ before.toList.getLast?, space c = true)
    (hafter : ∀ c ∈ after.toList.head?, space c = true)
    (hcard : (CREDIT_CARD_PATTERN data).IsWord card.toList) :
    (∀ card' : String, SameButDigits card.toList card'.toList →
      redact data (some (before ++ card ++ after)) =
        redact data (some (before ++ card' ++ after))) ↔
      (phoneRest (joints card.toList)).Taken (groupsBefore data (withoutContacts before.toList))
        (groupsAfter data (withoutContacts after.toList)) := by
  rw [← redactAll_card_iff data hbefore hafter hcard]
  have hredact : ∀ text : String, redact data (some (before ++ text ++ after)) =
      some (String.ofList (redactAll data (before.toList ++ (text.toList ++ after.toList)))) := by
    intro text
    rw [redact_eq, String.toList_append, String.toList_append, List.append_assoc]
  simp only [hredact, Option.some.injEq, String.ofList_inj]
  constructor
  · intro h card' hsame
    have hlist := h (String.ofList card')
    rw [String.toList_ofList] at hlist
    exact hlist hsame
  · exact fun h card' hsame => h card'.toList hsame

/-- The word boundary of a text without letters beyond ASCII. -/
def asciiData : CharacterData where
  isLetterOrDigit := Char.isAlphanum
  isNonSpacingMark := fun _ => false
  ascii := fun _ _ => ⟨rfl, rfl⟩

theorem isWord_hyphenated :
    (CREDIT_CARD_PATTERN asciiData).IsWord "4111-1111-1111-1111".toList := by
  rw [← isWord_map card_blind]
  have hrow : "4111-1111-1111-1111".toList.map mask = row ['-', '-', '-'] := by decide
  rw [hrow]
  exact isWord_row (List.all_eq_true.mp rfl)

theorem space_of_blank : ∀ c ∈ some ' ', space c = true := by
  intro c hc
  obtain rfl := Option.some.inj hc
  rfl

theorem sameButDigits_hyphenated :
    SameButDigits "4111-1111-1111-1111".toList "4111-1111-1111-2222".toList := by
  unfold SameButDigits
  decide

theorem card_hidden_iff_hyphenated :
    redact asciiData (some ("Card " ++ "4111-1111-1111-1111" ++ " 2222 3333 4444")) =
      redact asciiData (some ("Card " ++ "4111-1111-1111-2222" ++ " 2222 3333 4444")) := by
  have hbefore : ∀ c ∈ "Card ".toList.getLast?, space c = true := space_of_blank
  have hafter : ∀ c ∈ " 2222 3333 4444".toList.head?, space c = true := space_of_blank
  exact (card_hidden_iff asciiData hbefore hafter isWord_hyphenated).mpr (by decide) _
    sameButDigits_hyphenated

/-- The last group of a card number with hyphens is in the redacted text. -/
theorem card_not_hidden :
    ¬ ∀ (data : CharacterData) (before after card card' : String),
      (∀ c ∈ before.toList.getLast?, space c = true) →
      (∀ c ∈ after.toList.head?, space c = true) →
      (CREDIT_CARD_PATTERN data).IsWord card.toList →
      SameButDigits card.toList card'.toList →
      redact data (some (before ++ card ++ after)) =
        redact data (some (before ++ card' ++ after)) := by
  intro h
  have heq := h asciiData "" "" "4111-1111-1111-1111" "4111-1111-1111-2222"
    (fun c hc => by cases hc) (fun c hc => by cases hc) isWord_hyphenated
    sameButDigits_hyphenated
  have hfirst : redact asciiData (some ("" ++ "4111-1111-1111-1111" ++ "")) =
      some "[PHONE_REDACTED]-1111" := by decide
  have hsecond : redact asciiData (some ("" ++ "4111-1111-1111-2222" ++ "")) =
      some "[PHONE_REDACTED]-2222" := by decide
  rw [hfirst, hsecond] at heq
  exact absurd heq (by decide)

end PiiRedactor

end TalentFlow.CvParser
