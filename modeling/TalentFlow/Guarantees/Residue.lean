import TalentFlow.Parser.PiiRedactor

/-!
# Guarantees.Residue

Nothing that `PiiRedactor.redact` looks for is left in what it returns, and a second run changes
nothing.

A match in the new text stood in the old one, as the patterns have no bracket and match no part of
the replacements' names. For e-mail addresses and phone numbers that is all. A card number also
needs word boundaries on both sides, and those of the new text were there before: next to a card
number that was replaced there was a boundary already.

* `Delimited.find_replaced`: patterns between word boundaries.
* `redact_leaves_nothing`: the three patterns, and the second run.
-/

namespace TalentFlow.CvParser

open Data Regex Pattern

namespace CharacterData

variable {data : CharacterData} {before s : List Char} {c : Char}

variable (data) in
structure IsBase (c : Char) : Prop where
  letter : data.isLetterOrDigit c = true
  basic : c.val < 0x10000

theorem IsBase.hasBaseCharacter (h : data.IsBase c) :
    data.hasBaseCharacter (c :: before) = true := by
  have hle : ¬ 0x10000 ≤ c.val := UInt32.not_le.mpr h.basic
  rw [CharacterData.hasBaseCharacter, if_neg hle, if_pos h.letter]

theorem IsBase.isWord (h : data.IsBase c) : data.isWord c = true := by
  rw [CharacterData.isWord, h.letter, Bool.or_true]

theorem IsBase.wordBefore (h : data.IsBase c) : data.wordBefore (c :: before) = true := by
  rw [CharacterData.wordBefore, h.isWord, Bool.true_or]

theorem IsBase.wordAfter (h : data.IsBase c) : data.wordAfter before (c :: s) = true := by
  rw [CharacterData.wordAfter, h.isWord, Bool.true_or]

theorem lt_of_isDigit (h : c.isDigit = true) : c.val < 128 := by
  rw [Char.isDigit, Bool.and_eq_true_iff, decide_eq_true_eq, decide_eq_true_eq] at h
  exact UInt32.lt_of_le_of_lt h.2 (by decide)

theorem isBase_of_isDigit (h : c.isDigit = true) : data.IsBase c := by
  have hlt := lt_of_isDigit h
  constructor
  · rw [(data.ascii c hlt).1, Char.isAlphanum, h, Bool.or_true]
  · exact UInt32.lt_of_lt_of_le hlt (by decide)

/-! ## Patterns between word boundaries -/

variable (data) in
/-- A pattern that is asked for between word boundaries, and whose words begin and end with a letter
or digit. -/
structure Delimited (p : Pattern) : Prop where
  start : p.start = data.boundary
  stop : p.stop = data.boundary
  first : ∀ m, p.IsWord m → ∃ c t, m = c :: t ∧ data.IsBase c
  last : ∀ m, p.IsWord m → ∃ c t, m.reverse = c :: t ∧ data.IsBase c

namespace Delimited

variable {p : Pattern} {ps qs : List Piece} {words : List (List Char)}

theorem wordBefore_found (hp : data.Delimited p) (h : p.pieces [] s = ps ++ .found words :: qs) :
    data.wordBefore (source ps).reverse = false := by
  have hmatch := matchAt_eq_some (matchAt_of_found h)
  have hstart := hmatch.start
  obtain ⟨c, t, hc, hbase⟩ := hp.first _ hmatch.isWord
  have hcut : words.flatten = c :: t := hc
  rw [hp.start, boundary, hcut, List.cons_append, hbase.wordAfter, List.append_nil] at hstart
  simpa using hstart

theorem wordAfter_found (hp : data.Delimited p) (h : p.pieces [] s = ps ++ .found words :: qs) :
    data.wordAfter (words.flatten.reverse ++ (source ps).reverse) (source qs) = false := by
  have hmatch := matchAt_eq_some (matchAt_of_found h)
  have hstop := hmatch.stop
  obtain ⟨c, t, hc, hbase⟩ := hp.last _ hmatch.isWord
  have hcut : words.flatten.reverse = c :: t := hc
  rw [hp.stop, boundary, List.append_nil] at hstop
  have hbefore : data.wordBefore (words.flatten.reverse ++ (source ps).reverse) = true := by
    rw [hcut, List.cons_append, hbase.wordBefore]
  rw [show Match.text ⟨words, source qs⟩ = words.flatten from rfl, hbefore] at hstop
  simpa using hstop

theorem not_found_before (hp : data.Delimited p)
    (h : p.pieces [] s = ps ++ .found words :: qs) {t : List Char} (hs : source qs = c :: t)
    (hc : data.isWord c = true ∨ data.isNonSpacingMark c = true) : False := by
  have hmatch := matchAt_eq_some (matchAt_of_found h)
  obtain ⟨d, u, hd, hbase⟩ := hp.last _ hmatch.isWord
  have hcut : words.flatten.reverse = d :: u := hd
  have hafter := hp.wordAfter_found h
  rw [hs, hcut, List.cons_append, wordAfter, hbase.hasBaseCharacter, Bool.and_true,
    Bool.or_eq_false_iff] at hafter
  rcases hc with hc | hc
  · rw [hc] at hafter
    exact absurd hafter.1 (by simp)
  · rw [hc] at hafter
    exact absurd hafter.2 (by simp)

variable {f : List (List Char) → List Char}

/-- The way back over the marks meets no replacement. -/
theorem hasBaseCharacter_render (hp : data.Delimited p) (h : p.pieces [] s = ps ++ qs)
    {t : List Char} (hs : source qs = c :: t)
    (hc : data.isWord c = true ∨ data.isNonSpacingMark c = true) :
    data.hasBaseCharacter (render f ps).reverse = data.hasBaseCharacter (source ps).reverse := by
  induction ps using List.reverseRecOn generalizing qs c t with
  | nil => rfl
  | append_singleton ps q ih =>
    rw [List.append_assoc] at h
    cases q with
    | found words => exact (hp.not_found_before h hs hc).elim
    | kept d =>
      rw [render_append, source_append, List.reverse_append, List.reverse_append]
      simp only [render, source, List.reverse_singleton, List.singleton_append, hasBaseCharacter]
      split
      · rfl
      · split
        · rfl
        · split
          · rename_i hmark
            exact ih h rfl (.inr hmark)
          · rfl

theorem wordBefore_render (hp : data.Delimited p) (h : p.pieces [] s = ps ++ qs)
    {t : List Char} (hs : source qs = c :: t)
    (hc : data.isWord c = true ∨ data.isNonSpacingMark c = true) :
    data.wordBefore (render f ps).reverse = data.wordBefore (source ps).reverse := by
  have hwalk := hp.hasBaseCharacter_render (f := f) h hs hc
  cases ps using List.reverseRecOn with
  | nil => rfl
  | append_singleton ps q =>
    rw [render_append, source_append, List.reverse_append, List.reverse_append] at hwalk ⊢
    cases q with
    | found words =>
      rw [List.append_assoc] at h
      exact (hp.not_found_before h hs hc).elim
    | kept d =>
      simp only [render, source, List.reverse_singleton, List.singleton_append] at hwalk ⊢
      rw [wordBefore, wordBefore, hwalk]

/-- After a letter or digit a replacement ends a word, and before it the match began none. -/
theorem wordAfter_render (hp : data.Delimited p) {name u : List Char} (hc : data.IsBase c)
    (h : p.pieces [] s = ps ++ qs) (hs : (source ps).reverse = c :: u) (v : List Char) :
    data.wordAfter (c :: v) (render (bracketed name) qs) =
      data.wordAfter (c :: u) (source qs) := by
  cases qs with
  | nil => rfl
  | cons q qs =>
    cases q with
    | kept d =>
      simp only [render, source, wordAfter, hc.hasBaseCharacter]
    | found words =>
      have hbefore := hp.wordBefore_found h
      rw [hs, hc.wordBefore] at hbefore
      cases hbefore

/-- Nothing that was to be replaced is left. -/
theorem find_replaced (hp : data.Delimited p) {name : List Char} (hname : p.bare.Clear name) :
    p.find (p.replaceAll (bracketed name) s) = false := by
  rw [find_eq_false]
  intro u v hcut
  refine matchAt_eq_none.mpr fun m hm => ?_
  have hword : p.bare.IsWord m.text := hm.isWord
  rw [hm.cut, ← List.append_assoc] at hcut
  obtain ⟨ps, qs, hpieces, rfl, hrest⟩ | hpart := render_bracketed hword.ne_nil
    (hword.not_mem hname.opening) (hword.not_mem hname.closing) hcut
  · -- the same words in the old text, where the boundaries are the same
    obtain ⟨c, t, hfirst, hc⟩ := hp.first _ hm.isWord
    obtain ⟨d, w, hlast, hd⟩ := hp.last _ hm.isWord
    have hstart := hm.start
    have hstop := hm.stop
    rw [hm.cut] at hstart
    rw [hp.start, boundary, hfirst, List.cons_append, hc.wordAfter] at hstart
    rw [hp.stop, boundary, hlast, List.cons_append, hd.wordBefore] at hstop
    have hkept : p.pieces [] s = ps ++ (m.text.map .kept ++ qs) := by
      rw [hpieces, List.append_assoc]
    rw [hp.wordBefore_render hkept (by rw [source_append, source_map_kept, hfirst]; rfl)
      (.inl hc.isWord)] at hstart
    have hbefore : (source (ps ++ m.text.map .kept)).reverse = d :: (w ++ (source ps).reverse) := by
      rw [source_append, source_map_kept, List.reverse_append, hlast, List.cons_append]
    rw [← hrest, hp.wordAfter_render hd hpieces hbefore] at hstop
    rw [hfirst, List.map_cons, List.cons_append] at hkept
    refine matchAt_eq_none.mp (matchAt_of_kept hkept) ⟨m.words, source qs⟩
      ⟨hm.spells, ?_, ?_, ?_⟩
    · rw [source_append, source_map_kept, ← List.cons_append, ← hfirst]
      rfl
    · rw [hp.start, boundary, hc.wordAfter, List.append_nil]
      exact hstart
    · rw [hp.stop, boundary, List.append_nil]
      have htext : Match.text ⟨m.words, source qs⟩ = m.text := rfl
      rw [htext, hlast, List.cons_append, hd.wordBefore]
      exact hstop
  · exact bare_free.find_eq_false.mp hname.name m.text hword hpart

end Delimited

end CharacterData

namespace PiiRedactor

variable {data : CharacterData}

theorem cardGroup_first {m : List Char} (h : cardGroup.Spells m) :
    ∃ c t, m = c :: t ∧ c.isDigit = true := by
  obtain ⟨u, v, hu, -, rfl⟩ := h
  obtain ⟨hlen, hdigits⟩ := spells_times_one.mp hu
  cases u with
  | nil => cases hlen
  | cons c u => exact ⟨c, u ++ v, rfl, hdigits c List.mem_cons_self⟩

theorem card_delimited : data.Delimited (CREDIT_CARD_PATTERN data) where
  start := rfl
  stop := rfl
  first := by
    rintro _ ⟨words, hspells, rfl⟩
    cases hspells with
    | cons hgroups _ =>
      obtain ⟨u, v, hu, -, rfl⟩ := hgroups
      obtain ⟨c, t, rfl, hc⟩ := cardGroup_first hu
      exact ⟨c, _, rfl, CharacterData.isBase_of_isDigit hc⟩
  last := by
    rintro _ ⟨words, hspells, rfl⟩
    cases hspells with
    | cons _ hrest =>
      cases hrest with
      | cons hdigits hnil =>
        cases hnil
        rename_i groups _ last
        obtain ⟨hlen, hall⟩ := spells_times_one.mp hdigits
        cases hr : last.reverse with
        | nil =>
          rw [← List.length_reverse, hr] at hlen
          cases hlen
        | cons c t =>
          refine ⟨c, t ++ groups.reverse, by simp [hr], CharacterData.isBase_of_isDigit ?_⟩
          refine hall c ?_
          rw [← List.mem_reverse, hr]
          exact List.mem_cons_self

theorem card_clear : (CREDIT_CARD_PATTERN data).bare.Clear "CARD_REDACTED".toList where
  free := bare_free
  opening := rfl
  closing := rfl
  name := rfl

theorem email_clear {name : List Char} (h : EMAIL_PATTERN.find name = false) :
    EMAIL_PATTERN.Clear name where
  free := ⟨fun _ _ => rfl, fun _ _ => rfl⟩
  opening := by decide
  closing := by decide
  name := h

theorem phone_clear {name : List Char} (h : PHONE_PATTERN.find name = false) :
    PHONE_PATTERN.Clear name where
  free := ⟨fun _ _ => rfl, fun _ _ => rfl⟩
  opening := by decide
  closing := by decide
  name := h

theorem email_bracketed :
    (fun _ => REDACTED_EMAIL.toList) = bracketed "EMAIL_REDACTED".toList := rfl

theorem phone_bracketed :
    (fun _ => REDACTED_PHONE.toList) = bracketed "PHONE_REDACTED".toList := rfl

theorem card_bracketed : (fun _ => REDACTED_CARD.toList) = bracketed "CARD_REDACTED".toList := rfl

theorem find_redactAll (data : CharacterData) (text : List Char) :
    EMAIL_PATTERN.find (redactAll data text) = false ∧
      PHONE_PATTERN.find (redactAll data text) = false ∧
      (CREDIT_CARD_PATTERN data).find (redactAll data text) = false := by
  simp only [redactAll, email_bracketed, phone_bracketed, card_bracketed]
  refine ⟨?_, ?_, card_delimited.find_replaced card_clear⟩
  · refine (email_clear (by decide)).find_replaceAll ?_
    refine (email_clear (by decide)).find_replaceAll ?_
    exact (email_clear (by decide)).find_replaced
  · refine (phone_clear (by decide)).find_replaceAll ?_
    exact (phone_clear (by decide)).find_replaced

theorem redactAll_redactAll (data : CharacterData) (text : List Char) :
    redactAll data (redactAll data text) = redactAll data text := by
  obtain ⟨hemail, hphone, hcard⟩ := find_redactAll data text
  conv_lhs => rw [redactAll]
  rw [replaceAll_of_find hemail, replaceAll_of_find hphone, replaceAll_of_find hcard]

theorem redact_eq (data : CharacterData) (text : String) :
    redact data (some text) = some (String.ofList (redactAll data text.toList)) := by
  simp only [redact]
  split
  · rename_i hempty
    rw [String.isEmpty_iff] at hempty
    subst hempty
    rfl
  · rfl

/-- None of the three patterns is found in a redacted text, and redacting it again leaves it as it
is. -/
theorem redact_leaves_nothing (data : CharacterData) (text : String) :
    ∃ result, redact data (some text) = some result ∧
      EMAIL_PATTERN.find result.toList = false ∧ PHONE_PATTERN.find result.toList = false ∧
      (CREDIT_CARD_PATTERN data).find result.toList = false ∧
      redact data (some result) = some result := by
  obtain ⟨hemail, hphone, hcard⟩ := find_redactAll data text.toList
  refine ⟨_, redact_eq data text, ?_⟩
  rw [redact_eq, String.toList_ofList, redactAll_redactAll]
  exact ⟨hemail, hphone, hcard, rfl⟩

end PiiRedactor

end TalentFlow.CvParser
