import TalentFlow.Guarantees.Credentials

/-!
# Guarantees.Tokens

What `sanitizeString` does to a token of three segments after `Bearer`. The pattern for bearer tokens
ends at the first dot, so the other two segments stay in the text, unless an unfinished connection
string before them takes them in.

* `later_segments_shown`: the second segment is in the message.
* `token_hidden_iff`: when the message does not depend on the token.
-/

namespace TalentFlow.Sanitize

open Data Regex Pattern

/-! ## What the later replacements keep -/

theorem bearer_no_dot {m : List Char} (h : bearerTokens.IsWord m) : '.' ∉ m :=
  h.not_mem (by decide)

theorem apiKey_no_blank {m : List Char} (h : apiKeys.IsWord m) : ' ' ∉ m :=
  h.not_mem (by decide)

/-- No match of either pattern begins with one of the characters. -/
def inert (k : List Char) : Bool :=
  k.all fun c => neverFirsts c bearerTokens.parts && neverFirsts c apiKeys.parts

variable {k u v : List Char}

theorem render_inert {p : Pattern} {f : List (List Char) → List Char} {before : List Char}
    (h : ∀ c ∈ k, neverFirsts c p.parts = true) :
    k <+: render f (p.pieces before (k ++ v)) := by
  rw [pieces_of_no_start fun c hc t => not_isWord_cons (h c hc), render_append, render_map_kept]
  exact List.prefix_append _ _

theorem inert_bearerTokens (hk : inert k = true) : ∀ c ∈ k, neverFirsts c bearerTokens.parts = true :=
  fun c hc => (Bool.and_eq_true_iff.mp (List.all_eq_true.mp hk c hc)).1

theorem inert_apiKeys (hk : inert k = true) : ∀ c ∈ k, neverFirsts c apiKeys.parts = true :=
  fun c hc => (Bool.and_eq_true_iff.mp (List.all_eq_true.mp hk c hc)).2

theorem inert_append : inert (u ++ v) = (inert u && inert v) := List.all_append

/-- No match for an API key comes across a blank. -/
theorem apiKeys_shown (hk : inert k = true) (h : ' ' :: k <:+: u) :
    k <:+: apiKeys.replaceAll (fun m => groups m ++ "=[REDACTED]".toList) u := by
  obtain ⟨a, b, rfl⟩ := h
  rw [List.append_assoc, List.cons_append, replaceAll]
  obtain ⟨ps, -, hps⟩ := @pieces_across apiKeys [] a (k ++ b) ' ' fun m hm => apiKey_no_blank hm
  rw [hps, render_append, render]
  refine List.IsInfix.trans ?_ (List.suffix_append _ _).isInfix
  exact List.infix_cons (render_inert (inert_apiKeys hk)).isInfix

/-- A match for a bearer token ends at a dot. -/
theorem bearerTokens_shown (hk : inert k = true) (h : "Bearer a.".toList ++ k <:+: u) :
    ∃ e, inert e = true ∧
      ' ' :: (e ++ '.' :: k) <:+:
        bearerTokens.replaceAll (fun _ => "Bearer [REDACTED]".toList) u := by
  obtain ⟨a, b, rfl⟩ := h
  have hcut : a ++ ("Bearer a.".toList ++ k) ++ b =
      (a ++ "Bearer".toList) ++ (([' ', 'a', '.'] ++ k) ++ b) := by simp
  rw [hcut, replaceAll]
  obtain ⟨ps, -, hps⟩ | ⟨ps, u₁, u₂, m, -, -, -, hm, hlt, hps⟩ :=
    pieces_append (p := bearerTokens) [] (a ++ "Bearer".toList) (([' ', 'a', '.'] ++ k) ++ b)
  · refine ⟨['a'], by decide, ?_⟩
    rw [hps, render_append]
    have hinert : inert ([' ', 'a', '.'] ++ k) = true := by
      rw [inert_append, hk]
      decide
    exact (render_inert (inert_bearerTokens hinert)).isInfix.trans (List.suffix_append _ _).isInfix
  · have hmatch := matchAt_eq_some hm
    -- what is left of the first segment
    obtain ⟨e, he⟩ : m.text <+: u₂ ++ [' ', 'a'] := by
      refine prefix_of_not_mem (t := k ++ b) (bearer_no_dot hmatch.isWord) (hmatch.cut.symm.trans ?_)
      simp
    have hrest : m.rest = e ++ '.' :: (k ++ b) := by
      have hsame : m.text ++ m.rest = m.text ++ (e ++ '.' :: (k ++ b)) := by
        rw [← hmatch.cut, ← List.append_assoc m.text, he]
        simp
      exact List.append_cancel_left hsame
    have hsuffix : e <:+ [' ', 'a'] := by
      refine List.suffix_of_suffix_length_le ⟨m.text, he⟩ ⟨u₂, rfl⟩ ?_
      rw [hrest] at hlt
      simp only [List.length_append, List.length_cons, List.length_nil] at hlt ⊢
      omega
    have hblank : inert [' ', 'a'] = true := by decide
    have hinert : inert e = true :=
      List.all_eq_true.mpr fun c hc => List.all_eq_true.mp hblank c (hsuffix.subset hc)
    have hdot : inert (e ++ '.' :: k) = true := by
      rw [inert_append, hinert, show '.' :: k = ['.'] ++ k from rfl, inert_append, hk]
      decide
    refine ⟨"[REDACTED]".toList ++ e, by rw [inert_append, hinert]; decide, ?_⟩
    obtain ⟨z, hz⟩ : e ++ '.' :: k <+: render (fun _ => "Bearer [REDACTED]".toList)
        (bearerTokens.pieces (m.text.reverse ++ (u₁.reverse ++ [])) m.rest) := by
      rw [hrest, show e ++ '.' :: (k ++ b) = (e ++ '.' :: k) ++ b by simp]
      exact render_inert (inert_bearerTokens hdot)
    rw [hps, render_append, render, ← hz]
    exact ⟨render (fun _ => "Bearer [REDACTED]".toList) ps ++ "Bearer".toList, z, by simp⟩

/-! ## Tokens -/

/-- `[A-Za-z0-9_-]` -/
def base64urlChar (c : Char) : Bool := wordChar c || c == '-'

structure IsSegment (s : String) : Prop where
  nonempty : s ≠ ""
  chars : s.toList.all base64urlChar = true

/-- Three segments joined by dots. -/
def IsToken (t : String) : Prop :=
  ∃ a b c, IsSegment a ∧ IsSegment b ∧ IsSegment c ∧ t = a ++ "." ++ b ++ "." ++ c

def bearerText (before token after : String) : String := before ++ "Bearer " ++ token ++ after

theorem IsSegment.not_mem {s : String} (h : IsSegment s) {d : Char} (hd : base64urlChar d = false) :
    d ∉ s.toList := by
  intro hmem
  rw [List.all_eq_true.mp h.chars d hmem] at hd
  cases hd

theorem IsToken.not_mem {t : String} (h : IsToken t) {d : Char} (hd : base64urlChar d = false)
    (hdot : d ≠ '.') : d ∉ t.toList := by
  obtain ⟨a, b, c, ha, hb, hc, rfl⟩ := h
  simp [ha.not_mem hd, hb.not_mem hd, hc.not_mem hd, hdot]

def longToken (n : Nat) : String := "a." ++ String.ofList (List.replicate (n + 1) 'a') ++ ".a"

theorem isToken_longToken (n : Nat) : IsToken (longToken n) := by
  refine ⟨"a", String.ofList (List.replicate (n + 1) 'a'), "a", ⟨by decide, by decide⟩, ⟨?_, ?_⟩,
    ⟨by decide, by decide⟩, ?_⟩
  · simp [← String.toList_inj]
  · refine List.all_eq_true.mpr fun c hc => ?_
    rw [String.toList_ofList] at hc
    rw [List.eq_of_mem_replicate hc]
    decide
  · simp [longToken, ← String.toList_inj]

/-- What is not covered shows all of the second segment. -/
theorem length_lt_of_uncovered {before after : String}
    (h : ¬ (Covered before.toList ∧ '@' ∈ after.toList)) (n : Nat) :
    n < (sanitizeChars (bearerText before (longToken n) after).toList).length := by
  have htoken := isToken_longToken n
  have hshown : "Bearer ".toList ++ (longToken n).toList <:+:
      connectionStrings.replaceAll masked (bearerText before (longToken n) after).toList := by
    have htext : (bearerText before (longToken n) after).toList =
        before.toList ++ ("Bearer ".toList ++ (longToken n).toList ++ after.toList) := by
      simp [bearerText]
    rw [htext]
    refine uncovered_shows [] _ _ _ ?_ ?_ fun hcov hat => h ⟨hcov, hat⟩
    · simp [htoken.not_mem (d := ':') (by decide) (by decide)]
    · simp [htoken.not_mem (d := '@') (by decide) (by decide)]
  have hinert : inert (List.replicate (n + 1) 'a') = true := by
    refine List.all_eq_true.mpr fun c hc => ?_
    rw [List.eq_of_mem_replicate hc]
    decide
  have hsegment : "Bearer a.".toList ++ List.replicate (n + 1) 'a' <:+:
      connectionStrings.replaceAll masked (bearerText before (longToken n) after).toList := by
    refine List.IsInfix.trans ⟨[], ".a".toList, ?_⟩ hshown
    simp [longToken]
  obtain ⟨e, he, hlater⟩ := bearerTokens_shown hinert hsegment
  have hdot : inert (e ++ '.' :: List.replicate (n + 1) 'a') = true := by
    rw [inert_append, he, ← List.singleton_append, inert_append, hinert]
    decide
  have hlen := (apiKeys_shown hdot hlater).length_le
  rw [List.length_append, List.length_cons, List.length_replicate] at hlen
  rw [sanitizeChars_eq, maskRest]
  omega

theorem sanitizeString_token_iff (before after : String) :
    (∀ t t', IsToken t → IsToken t' →
      sanitizeString (bearerText before t after) = sanitizeString (bearerText before t' after)) ↔
    Covered before.toList ∧ '@' ∈ after.toList := by
  constructor
  · intro h
    by_contra hcon
    have hsame := h (longToken (sanitizeChars (bearerText before (longToken 0) after).toList).length)
      (longToken 0) (isToken_longToken _) (isToken_longToken 0)
    rw [sanitizeString, sanitizeString, String.ofList_inj] at hsame
    have hlt := length_lt_of_uncovered hcon
      (sanitizeChars (bearerText before (longToken 0) after).toList).length
    rw [hsame] at hlt
    exact Nat.lt_irrefl _ hlt
  · rintro ⟨⟨ps, t, hps, ht⟩, hat⟩
    obtain ⟨a, rest, hafter, ha⟩ := List.eq_append_cons_of_mem hat
    obtain ⟨out, hout⟩ := covered_hides [] before.toList hps ht rest
    have hsame : ∀ t, IsToken t → sanitizeString (bearerText before t after) =
        String.ofList (maskRest out) := by
      intro t htoken
      have htext : (bearerText before t after).toList =
          before.toList ++ (("Bearer ".toList ++ t.toList ++ a) ++ '@' :: rest) := by
        simp [bearerText, hafter]
      rw [sanitizeString, sanitizeChars_eq, replaceAll, htext, hout]
      · simp
      · simp [htoken.not_mem (d := '@') (by decide) (by decide), ha]
    intro t t' ht ht'
    rw [hsame t ht, hsame t' ht']

variable {ν : Type}

/-- The segments of a token have no influence on the message exactly when a connection string that has
begun before them takes them in. -/
theorem token_hidden_iff (name : String) (stack : Option String) (before after : String) :
    ((∀ t t', IsToken t → IsToken t' →
      (sanitizeError (.error name (bearerText before t after) stack : Thrown ν)).message? =
        (sanitizeError (.error name (bearerText before t' after) stack : Thrown ν)).message?) ↔
      Covered before.toList ∧ '@' ∈ after.toList) ∧
    ((∀ t t', IsToken t → IsToken t' →
      (sanitizeError (.string (bearerText before t after) : Thrown ν)).message? =
        (sanitizeError (.string (bearerText before t' after) : Thrown ν)).message?) ↔
      Covered before.toList ∧ '@' ∈ after.toList) := by
  simp only [sanitizeError, SanitizedError.message?, Option.some_inj, sanitizeString_token_iff,
    and_self]

theorem token_shown :
    IsToken "a.b.c" ∧
      (sanitizeError (.error "Error" (bearerText "" "a.b.c" "") none : Thrown Nat)).message? =
        some "Bearer [REDACTED].b.c" ∧
      (sanitizeError (.string (bearerText "" "a.d.c" "") : Thrown Nat)).message? =
        some "Bearer [REDACTED].d.c" := by
  refine ⟨⟨"a", "b", "c", ⟨by decide, by decide⟩, ⟨by decide, by decide⟩, ⟨by decide, by decide⟩,
    rfl⟩, ?_, ?_⟩
  · decide +kernel
  · decide +kernel

end TalentFlow.Sanitize
