import TalentFlow.Gateway.Sanitize
import Mathlib.Data.List.Basic

/-!
# Guarantees.Credentials

What `sanitizeString` does to a password in a connection string and to a token after `Bearer`.

The pattern for connection strings takes `w://x:y@`, where `x` goes up to the first colon and `y` up
to the first at sign after it. So a text hides what comes next in it when it has begun `w://x:` and
not met an at sign since (`Covered`), and shows it otherwise.
-/

namespace TalentFlow.Sanitize

open Data Regex Pattern

/-! ## Connection strings -/

structure IsConnection (w x y : List Char) : Prop where
  scheme : w ≠ []
  schemeChars : ∀ c ∈ w, wordChar c = true
  user : x ≠ []
  userChars : ':' ∉ x
  password : y ≠ []
  passwordChars : '@' ∉ y

/-- `w://x` -/
def opening (w x : List Char) : List Char := w ++ ':' :: '/' :: '/' :: x

def masked (m : List (List Char)) : List Char := groups m ++ ":[REDACTED]@".toList

def connection (w x y rest : List Char) : Match :=
  ⟨[w ++ [':', '/', '/'], x, [':'], y, ['@']], rest⟩

theorem masked_connection (w x y rest : List Char) :
    masked (connection w x y rest).words = opening w x ++ ":[REDACTED]@".toList := by
  simp [masked, groups, connection, opening]

theorem colon_not_mem {w : List Char} (h : ∀ c ∈ w, wordChar c = true) : ':' ∉ w := by
  intro hmem
  exact absurd (h ':' hmem) (by decide)

theorem spells_one_eq {a : Char} {m : List Char} : (one (· == a)).Spells m ↔ m = [a] := by
  simp [Spells]

theorem spells_plus_ne {a : Char} {m : List Char} :
    (plus (one (· != a))).Spells m ↔ m ≠ [] ∧ a ∉ m := by
  rw [spells_plus_one]
  refine and_congr_right fun _ => ⟨fun h hmem => ?_, fun h c hc => ?_⟩
  · exact absurd (h a hmem) (by simp)
  · rw [bne_iff_ne]
    rintro rfl
    exact h hc

variable {before s w x y u v k rest : List Char}

theorem cut_unique {a : Char} {z z' : List Char} (hx : a ∉ x) (hy : a ∉ y)
    (h : x ++ a :: z = y ++ a :: z') : x = y ∧ z = z' := by
  rcases List.append_eq_append_iff.mp h with ⟨t, rfl, ht⟩ | ⟨t, rfl, ht⟩
  · cases t with
    | nil => exact ⟨(List.append_nil x).symm, (List.cons.inj ht).2⟩
    | cons b t =>
      obtain ⟨rfl, -⟩ := List.cons.inj ht
      exact absurd (by simp) hy
  · cases t with
    | nil => exact ⟨List.append_nil y, (List.cons.inj ht).2.symm⟩
    | cons b t =>
      obtain ⟨rfl, -⟩ := List.cons.inj ht
      exact absurd (by simp) hx

theorem spells_slashes {m : List Char} :
    (word [(· == ':'), (· == '/'), (· == '/')]).Spells m ↔ m = [':', '/', '/'] := by
  simp [spells_word, List.forall₂_cons_left_iff]

theorem spells_connection {words : List (List Char)} :
    List.Forall₂ Spells connectionStrings.parts words ↔
      ∃ w x y, IsConnection w x y ∧ words = (connection w x y []).words := by
  simp only [connectionStrings, List.forall₂_cons_left_iff, List.forall₂_nil_left_iff,
    spells_one_eq, spells_plus_ne]
  constructor
  · rintro ⟨_, _, ⟨w, _, hw, hslashes, rfl⟩, ⟨x, _, ⟨hx, hcolon⟩, ⟨_, _, rfl, ⟨y, _, ⟨hy, hat⟩,
      ⟨_, _, rfl, rfl, rfl⟩, rfl⟩, rfl⟩, rfl⟩, rfl⟩
    obtain ⟨hne, hall⟩ := spells_plus_one.mp hw
    obtain rfl := spells_slashes.mp hslashes
    exact ⟨w, x, y, ⟨hne, hall, hx, hcolon, hy, hat⟩, rfl⟩
  · rintro ⟨w, x, y, h, rfl⟩
    refine ⟨_, _, ⟨w, _, ?_, spells_slashes.mpr rfl, rfl⟩, ⟨x, _, ⟨h.user, h.userChars⟩,
      ⟨_, _, rfl, ⟨y, _, ⟨h.password, h.passwordChars⟩, ⟨_, _, rfl, rfl, rfl⟩, rfl⟩, rfl⟩, rfl⟩,
      rfl⟩
    exact spells_plus_one.mpr ⟨h.scheme, h.schemeChars⟩

theorem connection_text : (connection w x y rest).text ++ rest =
    opening w x ++ ':' :: (y ++ '@' :: rest) := by
  simp [connection, Match.text, opening]

theorem matches_connection {m : Match} : connectionStrings.Matches before s m ↔
    ∃ w x y rest, IsConnection w x y ∧ s = opening w x ++ ':' :: (y ++ '@' :: rest) ∧
      m = connection w x y rest := by
  constructor
  · intro h
    obtain ⟨words, rest⟩ := m
    obtain ⟨w, x, y, hparts, rfl⟩ := spells_connection.mp h.spells
    exact ⟨w, x, y, rest, hparts, by rw [← connection_text]; exact h.cut, rfl⟩
  · rintro ⟨w, x, y, rest, hparts, rfl, rfl⟩
    exact ⟨spells_connection.mpr ⟨w, x, y, hparts, rfl⟩, connection_text.symm, rfl, rfl⟩

theorem connection_unique {w' x' y' rest' : List Char} (h : IsConnection w x y)
    (h' : IsConnection w' x' y')
    (heq : opening w x ++ ':' :: (y ++ '@' :: rest) = opening w' x' ++ ':' :: (y' ++ '@' :: rest')) :
    connection w x y rest = connection w' x' y' rest' := by
  simp only [opening, List.append_assoc, List.cons_append] at heq
  obtain ⟨rfl, huser⟩ := cut_unique (colon_not_mem h.schemeChars) (colon_not_mem h'.schemeChars) heq
  obtain ⟨rfl, hpassword⟩ := cut_unique h.userChars h'.userChars (by simpa using huser)
  obtain ⟨rfl, rfl⟩ := cut_unique h.passwordChars h'.passwordChars hpassword
  rfl

theorem matchAt_connection {m : Match} : connectionStrings.matchAt before s = some m ↔
    ∃ w x y rest, IsConnection w x y ∧ s = opening w x ++ ':' :: (y ++ '@' :: rest) ∧
      m = connection w x y rest := by
  rw [← matches_connection]
  refine ⟨matchAt_eq_some, fun h => matchAt_of_unique h fun m' h' => ?_⟩
  obtain ⟨w, x, y, rest, hparts, rfl, rfl⟩ := matches_connection.mp h
  obtain ⟨w', x', y', rest', hparts', heq, rfl⟩ := matches_connection.mp h'
  exact connection_unique hparts' hparts heq.symm

/-! ## What has begun -/

/-- The text begins a connection string and does not finish it. -/
def Begun (t : List Char) : Prop :=
  ∃ w x z, w ≠ [] ∧ (∀ c ∈ w, wordChar c = true) ∧ x ≠ [] ∧ ':' ∉ x ∧ '@' ∉ z ∧
    t = opening w x ++ ':' :: z

/-- What comes next belongs to a password: after the last connection string there is a text that
begins another one. -/
def Covered (u : List Char) : Prop :=
  ∃ ps t, connectionStrings.pieces [] u = ps ++ t.map .kept ∧ Begun t

/-- An at sign after two colons. -/
def Finished (t : List Char) : Prop := ∃ a b c, t = a ++ ':' :: (b ++ ':' :: c) ∧ '@' ∈ c

theorem suffix_of_cut {a : Char} {z z' : List Char} (hx : a ∉ x) (h : x ++ a :: z = y ++ a :: z') :
    z' <:+ z := by
  rcases List.append_eq_append_iff.mp h with ⟨t, rfl, ht⟩ | ⟨t, rfl, ht⟩
  · cases t with
    | nil =>
      rw [(List.cons.inj ht).2]
    | cons b t =>
      rw [(List.cons.inj ht).2]
      exact ⟨t ++ [a], by simp⟩
  · cases t with
    | nil =>
      rw [(List.cons.inj ht).2]
    | cons b t =>
      obtain ⟨rfl, -⟩ := List.cons.inj ht
      exact absurd (by simp) hx

theorem finished_iff {z : List Char} (hw : ':' ∉ w) (hx : ':' ∉ x) :
    Finished (opening w x ++ ':' :: z) ↔ '@' ∈ z := by
  constructor
  · rintro ⟨a, b, c, heq, hmem⟩
    rw [opening, List.append_assoc, List.cons_append] at heq
    have hsuffix : b ++ ':' :: c <:+ '/' :: '/' :: (x ++ ':' :: z) := suffix_of_cut hw heq
    obtain ⟨d, hd⟩ := hsuffix
    have hslash : ':' ∉ '/' :: '/' :: x := by simpa using hx
    rw [← List.append_assoc] at hd
    have hrest : c <:+ z := suffix_of_cut hslash hd.symm
    exact hrest.subset hmem
  · intro h
    exact ⟨w, '/' :: '/' :: x, z, by simp [opening], h⟩

theorem Begun.pieces {t : List Char} (h : Begun t) :
    connectionStrings.pieces before t = t.map .kept := by
  obtain ⟨w, x, z, -, hw, -, hx, hz, rfl⟩ := h
  refine pieces_of_findFrom (findFrom_eq_false.mpr fun u v huv => ?_)
  cases hm : connectionStrings.matchAt (u.reverse ++ before) v with
  | none => rfl
  | some m =>
    obtain ⟨w', x', y', rest, hparts, rfl, -⟩ := matchAt_connection.mp hm
    refine absurd ?_ hz
    refine (finished_iff (colon_not_mem hw) hx).mp ?_
    rw [huv]
    exact ⟨u ++ w', '/' :: '/' :: x', y' ++ '@' :: rest, by simp [opening], by simp⟩

theorem matchAt_append {m : Match} (h : connectionStrings.matchAt before s = some m) :
    connectionStrings.matchAt before (s ++ v) = some ⟨m.words, m.rest ++ v⟩ := by
  obtain ⟨w, x, y, rest, hparts, rfl, rfl⟩ := matchAt_connection.mp h
  exact matchAt_connection.mpr ⟨w, x, y, rest ++ v, hparts, by simp, rfl⟩

/-- A match that the text after `s` completes: that text comes before the separating colon, or `s`
has begun the connection string. -/
theorem crossing {m : Match} (hnone : connectionStrings.matchAt before s = none)
    (hm : connectionStrings.matchAt before (s ++ v) = some m) :
    ∃ w x y rest, IsConnection w x y ∧ m = connection w x y rest ∧
      ((∃ z, opening w x = s ++ z ∧ v = z ++ ':' :: (y ++ '@' :: rest)) ∨
        ∃ z, s = opening w x ++ ':' :: z ∧ '@' ∉ z ∧ y ++ '@' :: rest = z ++ v) := by
  obtain ⟨w, x, y, rest, hparts, hcut, rfl⟩ := matchAt_connection.mp hm
  refine ⟨w, x, y, rest, hparts, rfl, ?_⟩
  rcases List.append_eq_append_iff.mp hcut with ⟨z, hopening, hv⟩ | ⟨z, rfl, hz⟩
  · exact .inl ⟨z, hopening, hv⟩
  · cases z with
    | nil => exact .inl ⟨[], by simp, hz.symm⟩
    | cons c z =>
      rw [List.cons_append] at hz
      obtain ⟨rfl, htail⟩ := List.cons.inj hz
      refine .inr ⟨z, rfl, fun hat => ?_, htail⟩
      -- otherwise the whole match stands before the added text
      obtain ⟨z₁, z₂, rfl, hz₁⟩ := List.eq_append_cons_of_mem hat
      rw [List.append_assoc, List.cons_append] at htail
      obtain ⟨rfl, -⟩ := cut_unique hparts.passwordChars hz₁ htail
      rw [matchAt_connection.mpr ⟨w, x, y, z₂, hparts, rfl, rfl⟩] at hnone
      cases hnone

theorem connectionStrings_free : connectionStrings.Free := ⟨fun _ _ => rfl, fun _ _ => rfl⟩

/-- Two colons do not fit before the separating one. -/
theorem Begun.not_in_opening {t z : List Char} (ht : Begun t) (hw : ':' ∉ w) (hx : ':' ∉ x)
    (h : opening w x = u ++ t ++ z) : False := by
  obtain ⟨w', x', z', -, -, -, -, -, rfl⟩ := ht
  have hsuffix : '/' :: '/' :: x' ++ ':' :: z' ++ z <:+ '/' :: '/' :: x := by
    refine suffix_of_cut hw (y := u ++ w') ?_
    rw [← opening, h]
    simp [opening]
  have hmem : ':' ∈ '/' :: '/' :: x := hsuffix.subset (by simp)
  exact absurd hmem (by simpa using hx)

theorem Begun.matchAt {t : List Char} (h : Begun t) :
    ∃ w x z, ∀ before k rest, k ≠ [] → '@' ∉ k →
      connectionStrings.matchAt before (t ++ (k ++ '@' :: rest)) =
        some (connection w x (z ++ k) rest) := by
  obtain ⟨w, x, z, hwne, hw, hxne, hx, hz, rfl⟩ := h
  refine ⟨w, x, z, fun before k rest hk hat => ?_⟩
  refine matchAt_connection.mpr ⟨w, x, z ++ k, rest, ⟨hwne, hw, hxne, hx, ?_, ?_⟩, ?_, rfl⟩
  · simp [hk]
  · simp [hz, hat]
  · simp

theorem Begun.matchAt_before {t : List Char} (ht : Begun t) (hs : s = u ++ t) (hnot : ¬ Begun s)
    (hnone : connectionStrings.matchAt before s = none) :
    connectionStrings.matchAt before (s ++ v) = none := by
  cases hm : connectionStrings.matchAt before (s ++ v) with
  | none => rfl
  | some m =>
    obtain ⟨w, x, y, rest, hparts, -, ⟨z, hopening, -⟩ | ⟨z, hz, hat, -⟩⟩ := crossing hnone hm
    · rw [hs] at hopening
      exact (ht.not_in_opening (colon_not_mem hparts.schemeChars) hparts.userChars
        hopening).elim
    · exact absurd ⟨w, x, z, hparts.scheme, hparts.schemeChars, hparts.user, hparts.userChars,
        hat, hz⟩ hnot

/-- A text that ends in what has begun hides what comes up to the next at sign. -/
theorem covered_hides (before u : List Char) {ps : List Piece} {t : List Char}
    (hps : connectionStrings.pieces before u = ps ++ t.map .kept) (ht : Begun t)
    (rest : List Char) :
    ∃ out, ∀ k, k ≠ [] → '@' ∉ k →
      render masked (connectionStrings.pieces before (u ++ (k ++ '@' :: rest))) = out := by
  induction before, u using connectionStrings.pieces_induction generalizing ps with
  | nil before =>
    obtain ⟨-, hnil⟩ := List.append_eq_nil_iff.mp hps.symm
    obtain rfl := List.map_eq_nil_iff.mp hnil
    obtain ⟨w, x, z, -, -, -, -, -, h⟩ := ht
    simp [opening] at h
  | kept before c u hnone ih =>
    by_cases hbegun : Begun (c :: u)
    · obtain ⟨w, x, z, hmatch⟩ := hbegun.matchAt
      refine ⟨opening w x ++ ":[REDACTED]@".toList ++
        render masked (connectionStrings.pieces [] rest), fun k hk hat => ?_⟩
      rw [pieces_found (hmatch before k rest hk hat), render, masked_connection,
        connectionStrings_free.pieces _ []]
      rfl
    · have hcut := source_pieces (p := connectionStrings) before (c :: u)
      rw [hps, source_append, source_map_kept] at hcut
      rw [pieces_kept hnone] at hps
      cases ps with
      | nil =>
        have ht' : t = c :: u := hcut
        exact absurd (ht' ▸ ht) hbegun
      | cons q ps =>
        obtain ⟨-, hps'⟩ := List.cons.inj hps
        obtain ⟨out, hout⟩ := ih hps'
        refine ⟨c :: out, fun k hk hat => ?_⟩
        have hkept : connectionStrings.pieces before (c :: u ++ (k ++ '@' :: rest)) =
            .kept c :: connectionStrings.pieces (c :: before) (u ++ (k ++ '@' :: rest)) :=
          pieces_kept (ht.matchAt_before hcut.symm hbegun hnone)
        rw [hkept, render, hout k hk hat]
  | found before u m hm ih =>
    rw [pieces_found hm] at hps
    cases ps with
    | nil =>
      cases t with
      | nil => cases hps
      | cons c t => cases hps
    | cons q ps =>
      obtain ⟨-, hps'⟩ := List.cons.inj hps
      obtain ⟨out, hout⟩ := ih hps'
      refine ⟨masked m.words ++ out, fun k hk hat => ?_⟩
      rw [pieces_found (matchAt_append hm), render]
      exact congrArg (masked m.words ++ ·) (hout k hk hat)

theorem prefix_masked (before k v : List Char) (hk : ':' ∉ k) :
    k <+: render masked (connectionStrings.pieces before (k ++ v)) := by
  induction k generalizing before with
  | nil => exact List.nil_prefix
  | cons c k ih =>
    have hk' : ':' ∉ k := fun hmem => hk (List.mem_cons_of_mem c hmem)
    cases hm : connectionStrings.matchAt before (c :: k ++ v) with
    | none =>
      have hkept : connectionStrings.pieces before (c :: k ++ v) =
          .kept c :: connectionStrings.pieces (c :: before) (k ++ v) := pieces_kept hm
      rw [hkept, render, List.cons_prefix_cons]
      exact ⟨rfl, ih (c :: before) hk'⟩
    | some m =>
      obtain ⟨w, x, y, rest, hparts, hcut, rfl⟩ := matchAt_connection.mp hm
      rw [pieces_found hm, render, masked_connection]
      -- the text ends before the first colon
      rw [opening, List.append_assoc, List.cons_append] at hcut
      have hprefix : c :: k <+: w := prefix_of_not_mem hk hcut
      rw [opening, List.append_assoc, List.append_assoc]
      exact hprefix.trans (List.prefix_append _ _)

/-- What comes next is shown when nothing has begun, or when no at sign follows. -/
theorem uncovered_shows (before u k v : List Char) (hk : ':' ∉ k) (hat : '@' ∉ k)
    (h : (∃ ps t, connectionStrings.pieces before u = ps ++ t.map .kept ∧ Begun t) → '@' ∉ v) :
    k <:+: render masked (connectionStrings.pieces before (u ++ (k ++ v))) := by
  induction before, u using connectionStrings.pieces_induction with
  | nil before => exact (prefix_masked before k v hk).isInfix
  | kept before c u hnone ih =>
    cases hm : connectionStrings.matchAt before (c :: u ++ (k ++ v)) with
    | none =>
      have hkept : connectionStrings.pieces before (c :: u ++ (k ++ v)) =
          .kept c :: connectionStrings.pieces (c :: before) (u ++ (k ++ v)) := pieces_kept hm
      rw [hkept, render]
      refine List.infix_cons (ih ?_)
      rintro ⟨ps, t, hps, ht⟩
      exact h ⟨.kept c :: ps, t, by rw [pieces_kept hnone, hps, List.cons_append], ht⟩
    | some m =>
      obtain ⟨w, x, y, rest, hparts, rfl, ⟨z, hopening, hz⟩ | ⟨z, hz, hzat, hy⟩⟩ :=
        crossing hnone hm
      · obtain ⟨z', rfl⟩ := prefix_of_not_mem hk hz
        rw [pieces_found hm, render, masked_connection, hopening]
        have hpart : k <:+: c :: u ++ (k ++ z') := ⟨c :: u, z', by rw [List.append_assoc]⟩
        exact (hpart.trans (List.prefix_append _ _).isInfix).trans (List.prefix_append _ _).isInfix
      · -- the text belongs to a password, but for want of an at sign there is no match
        have hbegun : Begun (c :: u) := ⟨w, x, z, hparts.scheme, hparts.schemeChars, hparts.user,
          hparts.userChars, hzat, hz⟩
        have hv := h ⟨[], c :: u, hbegun.pieces, hbegun⟩
        have hmem : '@' ∈ z ++ (k ++ v) := by simp [← hy]
        simp only [List.mem_append] at hmem
        rcases hmem with hmem | hmem | hmem
        · exact absurd hmem hzat
        · exact absurd hmem hat
        · exact absurd hmem hv
  | found before u m hm ih =>
    rw [pieces_found (matchAt_append hm), render]
    have hinner : k <:+: render masked
        (connectionStrings.pieces (m.text.reverse ++ before) (m.rest ++ (k ++ v))) := by
      refine ih ?_
      rintro ⟨ps, t, hps, ht⟩
      exact h ⟨.found m.words :: ps, t, by rw [pieces_found hm, hps, List.cons_append], ht⟩
    exact hinner.trans (List.suffix_append _ _).isInfix

/-! ## The other replacements -/

/-- What is done to a text without connection strings. -/
def maskRest (str : List Char) : List Char :=
  apiKeys.replaceAll (fun m => groups m ++ "=[REDACTED]".toList)
    (bearerTokens.replaceAll (fun _ => "Bearer [REDACTED]".toList) str)

theorem sanitizeChars_eq (str : List Char) :
    sanitizeChars str = maskRest (connectionStrings.replaceAll masked str) := rfl

theorem ampersand_bearerTokens {words : List (List Char)}
    (h : List.Forall₂ Spells bearerTokens.parts words) : '&' ∉ words.flatten := by
  intro hmem
  obtain ⟨word, hword, hin⟩ := List.mem_flatten.mp hmem
  obtain ⟨r, hr, hspells⟩ := exists_of_mem_words h hword
  have havoids : bearerTokens.parts.all (·.avoids '&') = true := by decide
  exact not_mem_of_avoids (List.all_eq_true.mp havoids r hr) hspells hin

theorem ampersand_apiKeys {words : List (List Char)}
    (h : List.Forall₂ Spells apiKeys.parts words) :
    words.flatten.count '&' ≤ (groups words ++ "=[REDACTED]".toList).count '&' := by
  simp only [apiKeys, List.forall₂_cons_left_iff, List.forall₂_nil_left_iff] at h
  obtain ⟨a, _, -, ⟨b, _, -, ⟨c, _, hc, ⟨d, _, hd, rfl, rfl⟩, rfl⟩, rfl⟩, rfl⟩ := h
  have hc' : '&' ∉ c := not_mem_of_avoids (by decide) hc
  have hd' : '&' ∉ d := not_mem_of_avoids (by decide) hd
  simp [groups, List.count_eq_zero_of_not_mem hc', List.count_eq_zero_of_not_mem hd']

theorem ampersands_kept (str : List Char) : str.count '&' ≤ (maskRest str).count '&' := by
  refine (count_le_replaceAll (fun words h => ?_) str).trans
    (count_le_replaceAll (fun words h => ampersand_apiKeys h) _)
  rw [List.count_eq_zero_of_not_mem (ampersand_bearerTokens h)]
  exact Nat.zero_le _

/-! ## Passwords -/

structure IsScheme (s : String) : Prop where
  nonempty : s ≠ ""
  chars : s.toList.all wordChar = true

/-- No at sign, slash or white space. -/
def passwordChar (c : Char) : Bool := c != '@' && c != '/' && !whiteSpace c

structure IsPassword (s : String) : Prop where
  nonempty : s ≠ ""
  chars : s.toList.all passwordChar = true

def IsUser (s : String) : Prop := s.toList.all (fun c => c != ':' && passwordChar c) = true

instance (s : String) : Decidable (IsUser s) :=
  inferInstanceAs (Decidable (s.toList.all (fun c => c != ':' && passwordChar c) = true))

theorem IsPassword.not_mem {s : String} (h : IsPassword s) : '@' ∉ s.toList := by
  intro hmem
  exact absurd (List.all_eq_true.mp h.chars '@' hmem) (by decide)

theorem IsUser.not_mem {s : String} (h : IsUser s) : ':' ∉ s.toList ∧ '@' ∉ s.toList := by
  constructor
  · intro hmem
    exact absurd (List.all_eq_true.mp h ':' hmem) (by decide)
  · intro hmem
    exact absurd (List.all_eq_true.mp h '@' hmem) (by decide)

def upToPassword (before scheme user : String) : List Char :=
  before.toList ++ opening scheme.toList user.toList ++ [':']

theorem covered_of_user {before scheme user : String} (hs : IsScheme scheme) (hu : IsUser user)
    (hne : user ≠ "") : Covered (upToPassword before scheme user) := by
  have hbegun : Begun (opening scheme.toList user.toList ++ [':']) := by
    refine ⟨scheme.toList, user.toList, [], ?_, List.all_eq_true.mp hs.chars, ?_, hu.not_mem.1,
      by simp, rfl⟩
    · simpa using hs.nonempty
    · simpa using hne
  rcases pieces_append (p := connectionStrings) [] before.toList
    (opening scheme.toList user.toList ++ [':']) with
    ⟨ps, -, hps⟩ | ⟨ps, u₁, u₂, m, -, -, -, hm, hlt, -⟩
  · refine ⟨ps, _, ?_, hbegun⟩
    rw [upToPassword, List.append_assoc, hps, hbegun.pieces]
  · -- a match ends with an at sign
    obtain ⟨w, x, y, rest, -, hcut, rfl⟩ := matchAt_connection.mp hm
    have hsuffix : '@' :: rest <:+ opening scheme.toList user.toList ++ [':'] := by
      refine List.suffix_of_suffix_length_le ⟨opening w x ++ ':' :: y, ?_⟩ ⟨u₂, hcut⟩ hlt
      simp
    have hmem : '@' ∈ opening scheme.toList user.toList ++ [':'] := hsuffix.subset (by simp)
    simp only [opening, List.append_assoc, List.mem_append, List.cons_append, List.mem_cons,
      Char.reduceEq, List.not_mem_nil, false_or, or_false] at hmem
    rcases hmem with hmem | hmem
    · exact absurd (List.all_eq_true.mp hs.chars '@' hmem) (by decide)
    · exact absurd hmem hu.not_mem.2

theorem isPassword_ampersands (n : Nat) :
    IsPassword (String.ofList (List.replicate (n + 1) '&')) := by
  constructor
  · simp [← String.toList_inj]
  · refine List.all_eq_true.mpr fun c hc => ?_
    rw [String.toList_ofList] at hc
    rw [List.eq_of_mem_replicate hc]
    decide

theorem uncovered_ampersands {u : List Char} (h : ¬ Covered u) (n : Nat) (rest : List Char) :
    n ≤ (maskRest (connectionStrings.replaceAll masked
      (u ++ (List.replicate n '&' ++ '@' :: rest)))).count '&' := by
  have hshown : List.replicate n '&' <:+: connectionStrings.replaceAll masked
      (u ++ (List.replicate n '&' ++ '@' :: rest)) := by
    refine uncovered_shows [] u _ _ ?_ ?_ fun hcov => absurd hcov h
    · exact fun hmem => absurd (List.eq_of_mem_replicate hmem) (by decide)
    · exact fun hmem => absurd (List.eq_of_mem_replicate hmem) (by decide)
  have hcount := hshown.sublist.count_le '&'
  rw [List.count_replicate_self] at hcount
  exact hcount.trans (ampersands_kept _)

variable {ν : Type}

def connectionError (name : String) (stack : Option String)
    (before scheme user password host after : String) : Thrown ν :=
  .error name (before ++ scheme ++ "://" ++ user ++ ":" ++ password ++ "@" ++ host ++ after) stack

theorem message_connectionError (name : String) (stack : Option String)
    (before scheme user password host after : String) :
    (sanitizeError (connectionError name stack before scheme user password host after :
      Thrown ν)).message? = some (String.ofList (maskRest (connectionStrings.replaceAll masked
        (upToPassword before scheme user ++
          (password.toList ++ '@' :: (host.toList ++ after.toList)))))) := by
  have htext : (before ++ scheme ++ "://" ++ user ++ ":" ++ password ++ "@" ++ host ++ after).toList =
      upToPassword before scheme user ++
        (password.toList ++ '@' :: (host.toList ++ after.toList)) := by
    simp [upToPassword, opening]
  rw [← htext]
  rfl

/-- The password of a connection string has no influence on the message exactly when there is a user
before it, or the text has begun a connection string earlier. -/
theorem password_hidden_iff (name : String) (stack : Option String)
    (before scheme user host after : String) (hs : IsScheme scheme) (hu : IsUser user) :
    (∀ p q, IsPassword p → IsPassword q →
      (sanitizeError (connectionError name stack before scheme user p host after :
        Thrown ν)).message? =
      (sanitizeError (connectionError name stack before scheme user q host after :
        Thrown ν)).message?) ↔
    user ≠ "" ∨ Covered (upToPassword before scheme "") := by
  simp only [message_connectionError]
  constructor
  · intro h
    by_contra hcon
    obtain ⟨hempty, hcov⟩ := not_or.mp hcon
    obtain rfl := not_not.mp hempty
    -- ampersands stay in the message, so its length grows with the password
    obtain ⟨shown, hshown⟩ : ∃ shown, shown = maskRest (connectionStrings.replaceAll masked
      (upToPassword before scheme "" ++
        (List.replicate 1 '&' ++ '@' :: (host.toList ++ after.toList)))) := ⟨_, rfl⟩
    have hsame := h _ _ (isPassword_ampersands shown.length) (isPassword_ampersands 0)
    rw [Option.some_inj, String.ofList_inj, String.toList_ofList, String.toList_ofList, ← hshown]
      at hsame
    have hcount := uncovered_ampersands hcov (shown.length + 1) (host.toList ++ after.toList)
    rw [hsame] at hcount
    exact Nat.not_succ_le_self _ (hcount.trans List.count_le_length)
  · intro h p q hp hq
    have hcov : Covered (upToPassword before scheme user) := by
      by_cases hne : user = ""
      · subst hne
        exact h.resolve_left (fun hn => hn rfl)
      · exact covered_of_user hs hu hne
    obtain ⟨ps, t, hps, ht⟩ := hcov
    obtain ⟨out, hout⟩ := covered_hides [] _ hps ht (host.toList ++ after.toList)
    have hsame : ∀ p, IsPassword p → connectionStrings.replaceAll masked
        (upToPassword before scheme user ++
          (p.toList ++ '@' :: (host.toList ++ after.toList))) = out := by
      intro p hp
      refine hout p.toList ?_ hp.not_mem
      simpa using hp.nonempty
    rw [hsame p hp, hsame q hq]

theorem password_hidden_postgres :
    (sanitizeError (connectionError "Error" none "failed: " "postgres" "user" "hunter2" "db" " end" :
      Thrown Nat)).message? =
    (sanitizeError (connectionError "Error" none "failed: " "postgres" "user" "pass" "db" " end" :
      Thrown Nat)).message? :=
  (password_hidden_iff "Error" none "failed: " "postgres" "user" "db" " end"
    ⟨by decide, by decide⟩ (by decide)).mpr (.inl (by decide)) "hunter2" "pass"
    ⟨by decide, by decide⟩ ⟨by decide, by decide⟩

theorem password_shown :
    IsScheme "redis" ∧ IsUser "" ∧ IsPassword "pw" ∧ IsPassword "qw" ∧
      (sanitizeError (connectionError "Error" none "" "redis" "" "pw" "host" "" :
        Thrown Nat)).message? = some "redis://:pw@host" ∧
      (sanitizeError (connectionError "Error" none "" "redis" "" "qw" "host" "" :
        Thrown Nat)).message? = some "redis://:qw@host" := by
  refine ⟨⟨by decide, by decide⟩, by decide, ⟨by decide, by decide⟩,
    ⟨by decide, by decide⟩, ?_, ?_⟩
  · decide +kernel
  · decide +kernel

end TalentFlow.Sanitize
