import Mathlib.Data.List.TakeWhile

/-!
# Data.Percent

UTF-8 and percent-encoding: the strict decoder of `decodeURIComponent`, which refuses what is
malformed, and the one of the URL standard, which replaces it.

* `decodeUtf8_eq_some`: strict decoding is the inverse of encoding.
* `decodeUtf8_cut`, `octets_question`: texts on both sides of an ASCII character.
* `octets_escapes`: escapes give back the bytes.
-/

namespace Data.Percent

/-! ## UTF-8 -/

def utf8 (s : List Char) : List UInt8 := s.flatMap String.utf8EncodeChar

/-- Decodes at most `n` characters; bytes that are no UTF-8 are refused. -/
def decodeUtf8From : Nat → List UInt8 → Option (List Char)
  | _, [] => some []
  | 0, _ :: _ => none
  | n + 1, b :: bytes =>
    ((b :: bytes).toByteArray.utf8DecodeChar? 0).bind fun c =>
      (decodeUtf8From n ((b :: bytes).drop c.utf8Size)).map (c :: ·)

def decodeUtf8 (bytes : List UInt8) : Option (List Char) := decodeUtf8From bytes.length bytes

theorem utf8_append (s t : List Char) : utf8 (s ++ t) = utf8 s ++ utf8 t := List.flatMap_append

theorem utf8EncodeChar_ne_nil (c : Char) : String.utf8EncodeChar c ≠ [] := by
  intro h
  have hlen := String.length_utf8EncodeChar c
  rw [h] at hlen
  exact absurd hlen (Nat.ne_of_lt c.utf8Size_pos)

theorem utf8DecodeChar?_eq_some {bytes : List UInt8} {c : Char} :
    bytes.toByteArray.utf8DecodeChar? 0 = some c ↔ ∃ t, bytes = String.utf8EncodeChar c ++ t := by
  constructor
  · intro h
    obtain ⟨t, ht⟩ := ByteArray.exists_of_utf8DecodeChar?_eq_some h
    refine ⟨t.data.toList, List.toByteArray_inj.mp ?_⟩
    have hround : t.data.toList.toByteArray = t := ByteArray.ext (by simp)
    rw [ht, List.toByteArray_append, hround]
  · rintro ⟨t, rfl⟩
    rw [List.toByteArray_append]
    exact ByteArray.utf8DecodeChar?_utf8EncodeChar_append

theorem utf8_eq_nil {s : List Char} : utf8 s = [] ↔ s = [] := by
  cases s with
  | nil => exact iff_of_true rfl rfl
  | cons c s =>
    refine iff_of_false (fun h => ?_) (by simp)
    exact utf8EncodeChar_ne_nil c (List.append_eq_nil_iff.mp h).1

theorem decodeUtf8From_eq_some {n : Nat} {bytes : List UInt8} {s : List Char}
    (hn : bytes.length ≤ n) : decodeUtf8From n bytes = some s ↔ bytes = utf8 s := by
  induction n generalizing bytes s with
  | zero =>
    obtain rfl := List.length_eq_zero_iff.mp (Nat.le_zero.mp hn)
    rw [decodeUtf8From, Option.some_inj, @eq_comm _ [], @eq_comm _ [], utf8_eq_nil]
  | succ n ih =>
    cases bytes with
    | nil => rw [decodeUtf8From, Option.some_inj, @eq_comm _ [], @eq_comm _ [], utf8_eq_nil]
    | cons b bytes =>
      have hshort : ∀ c t, b :: bytes = String.utf8EncodeChar c ++ t → t.length ≤ n := by
        intro c t h
        have hlen := congrArg List.length h
        rw [List.length_append, String.length_utf8EncodeChar] at hlen
        have hpos := c.utf8Size_pos
        omega
      rw [decodeUtf8From, Option.bind_eq_some_iff]
      constructor
      · rintro ⟨c, hc, h⟩
        obtain ⟨t, ht⟩ := utf8DecodeChar?_eq_some.mp hc
        obtain ⟨s', hs', rfl⟩ := Option.map_eq_some_iff.mp h
        rw [ht, ← String.length_utf8EncodeChar, List.drop_left, ih (hshort c t ht)] at hs'
        rw [ht, hs']
        rfl
      · intro h
        cases s with
        | nil => cases h
        | cons c s =>
          have ht : b :: bytes = String.utf8EncodeChar c ++ utf8 s := h
          refine ⟨c, utf8DecodeChar?_eq_some.mpr ⟨_, ht⟩, Option.map_eq_some_iff.mpr ⟨s, ?_, rfl⟩⟩
          rw [ht, ← String.length_utf8EncodeChar, List.drop_left, ih (hshort c _ ht)]

theorem decodeUtf8_eq_some {bytes : List UInt8} {s : List Char} :
    decodeUtf8 bytes = some s ↔ bytes = utf8 s := decodeUtf8From_eq_some (Nat.le_refl _)

theorem not_ascii {n : Nat} (h : 128 ≤ n) (h' : n < 256) : ¬ (UInt8.ofNat n).toNat < 128 := by
  rw [UInt8.toNat_ofNat']
  omega

/-- An ASCII byte is a character of its own. -/
theorem utf8EncodeChar_of_mem {c : Char} {b : UInt8} (h : b ∈ String.utf8EncodeChar c)
    (hb : b.toNat < 128) : String.utf8EncodeChar c = [b] := by
  simp only [String.utf8EncodeChar] at h ⊢
  split at h
  · rename_i hv
    rw [if_pos hv, List.mem_singleton.mp h]
  · exfalso
    split at h
    · simp only [List.mem_cons, List.not_mem_nil, or_false] at h
      rcases h with rfl | rfl
      all_goals exact not_ascii (by omega) (by omega) hb
    · split at h
      · simp only [List.mem_cons, List.not_mem_nil, or_false] at h
        rcases h with rfl | rfl | rfl
        all_goals exact not_ascii (by omega) (by omega) hb
      · simp only [List.mem_cons, List.not_mem_nil, or_false] at h
        rcases h with rfl | rfl | rfl | rfl
        all_goals exact not_ascii (by omega) (by omega) hb

theorem utf8EncodeChar_injective {c d : Char}
    (h : String.utf8EncodeChar c = String.utf8EncodeChar d) :
    c = d := by
  have hc := (utf8DecodeChar?_eq_some (c := c)).mpr ⟨[], (List.append_nil _).symm⟩
  rw [h, utf8DecodeChar?_eq_some.mpr ⟨[], (List.append_nil _).symm⟩] at hc
  exact (Option.some_inj.mp hc).symm

/-- UTF-8 around an ASCII character is UTF-8 on both sides. -/
theorem utf8_cut {a : List UInt8} {b : UInt8} {t : List UInt8} {s : List Char} {d : Char}
    (hd : String.utf8EncodeChar d = [b]) (hb : b.toNat < 128) (h : a ++ b :: t = utf8 s) :
    ∃ s₁ s₂, s = s₁ ++ d :: s₂ ∧ a = utf8 s₁ ∧ t = utf8 s₂ := by
  induction s generalizing a with
  | nil => exact absurd h (by simp [utf8])
  | cons c s ih =>
    have hcut : a ++ b :: t = String.utf8EncodeChar c ++ utf8 s := h
    rcases List.append_eq_append_iff.mp hcut with ⟨u, hc, hu⟩ | ⟨u, rfl, hu⟩
    · cases u with
      | nil =>
        obtain ⟨s₁, s₂, rfl, hs₁, rfl⟩ := ih (a := []) hu
        rw [List.append_nil] at hc
        obtain rfl := utf8_eq_nil.mp hs₁.symm
        exact ⟨[c], s₂, rfl, by simp [utf8, hc], rfl⟩
      | cons b' u =>
        -- the byte is in the character, so it is the character
        obtain ⟨rfl, hrest⟩ := List.cons.inj hu
        have hsingle := utf8EncodeChar_of_mem (c := c) (by rw [hc]; simp) hb
        obtain rfl := utf8EncodeChar_injective (hsingle.trans hd.symm)
        rw [hsingle] at hc
        cases a with
        | nil =>
          obtain rfl := (List.cons.inj hc).2
          exact ⟨[], s, rfl, rfl, hrest⟩
        | cons _ _ => simp at hc
    · obtain ⟨s₁, s₂, rfl, rfl, rfl⟩ := ih hu.symm
      exact ⟨c :: s₁, s₂, rfl, rfl, rfl⟩

theorem decodeUtf8_cut {a t : List UInt8} {b : UInt8} {d : Char}
    (hd : String.utf8EncodeChar d = [b]) (hb : b.toNat < 128) :
    decodeUtf8 (a ++ b :: t) =
      (decodeUtf8 a).bind fun s₁ => (decodeUtf8 t).map fun s₂ => s₁ ++ d :: s₂ := by
  refine Option.ext fun s => ?_
  simp only [decodeUtf8_eq_some, Option.bind_eq_some_iff, Option.map_eq_some_iff]
  constructor
  · intro h
    obtain ⟨s₁, s₂, rfl, rfl, rfl⟩ := utf8_cut hd hb h
    exact ⟨s₁, rfl, s₂, rfl, rfl⟩
  · rintro ⟨s₁, rfl, s₂, rfl, rfl⟩
    rw [utf8_append]
    simp [utf8, hd]

/-- Where the decoder that replaces what is no UTF-8 stands: the bytes it still needs, the bits it
has, and the bounds for the next byte. -/
structure Partial where
  needed : Nat := 0
  bits : Nat := 0
  lower : Nat := 0x80
  upper : Nat := 0xBF

/-- The first byte of a character: what it gives, and what is needed then. -/
def firstByte (b : Nat) : List Char × Partial :=
  if b ≤ 0x7F then ([Char.ofNat b], {})
  else if 0xC2 ≤ b ∧ b ≤ 0xDF then ([], { needed := 1, bits := b - 0xC0 })
  else if 0xE0 ≤ b ∧ b ≤ 0xEF then
    ([], { needed := 2, bits := b - 0xE0, lower := if b = 0xE0 then 0xA0 else 0x80,
           upper := if b = 0xED then 0x9F else 0xBF })
  else if 0xF0 ≤ b ∧ b ≤ 0xF4 then
    ([], { needed := 3, bits := b - 0xF0, lower := if b = 0xF0 then 0x90 else 0x80,
           upper := if b = 0xF4 then 0x8F else 0xBF })
  else ([Char.ofNat 0xFFFD], {})

/-- One more byte. A byte that does not fit begins anew, after a replacement character. -/
def nextByte (p : Partial) (b : Nat) : List Char × Partial :=
  if p.needed = 0 then firstByte b
  else if b < p.lower ∨ p.upper < b then
    let (out, q) := firstByte b
    (Char.ofNat 0xFFFD :: out, q)
  else if p.needed = 1 then ([Char.ofNat (p.bits * 64 + (b - 0x80))], {})
  else ([], { needed := p.needed - 1, bits := p.bits * 64 + (b - 0x80) })

/-- UTF-8 decode without BOM. -/
def decodeLossy (p : Partial) : List UInt8 → List Char
  | [] => if p.needed = 0 then [] else [Char.ofNat 0xFFFD]
  | b :: bytes =>
    let (out, q) := nextByte p b.toNat
    out ++ decodeLossy q bytes

/-! ## Percent-encoding -/

def hexDigit (n : Nat) : Char := Char.ofNat (if n < 10 then 48 + n else 55 + n)

def hexValue (c : Char) : Option Nat :=
  if '0' ≤ c ∧ c ≤ '9' then some (c.toNat - 48)
  else if 'A' ≤ c ∧ c ≤ 'F' then some (c.toNat - 55)
  else if 'a' ≤ c ∧ c ≤ 'f' then some (c.toNat - 87)
  else none

/-- `%XX` -/
def escape (b : UInt8) : List Char := ['%', hexDigit (b.toNat / 16), hexDigit (b.toNat % 16)]

def encodeChar (c : Char) : List Char := (String.utf8EncodeChar c).flatMap escape

/-- The characters of a set are escaped. -/
def percentEncode (set : Char → Bool) (s : List Char) : List Char :=
  s.flatMap fun c => if set c then encodeChar c else [c]

/-- An escape that is malformed stands for itself. -/
def percentDecode : List Char → List UInt8
  | [] => []
  | '%' :: a :: b :: s =>
    match hexValue a, hexValue b with
    | some x, some y => UInt8.ofNat (16 * x + y) :: percentDecode s
    | _, _ => String.utf8EncodeChar '%' ++ percentDecode (a :: b :: s)
  | c :: s => String.utf8EncodeChar c ++ percentDecode s

/-- A malformed escape is refused. -/
def octets : List Char → Option (List UInt8)
  | [] => some []
  | '%' :: a :: b :: s =>
    (hexValue a).bind fun x => (hexValue b).bind fun y =>
      (octets s).map (UInt8.ofNat (16 * x + y) :: ·)
  | '%' :: _ => none
  | c :: s => (octets s).map (String.utf8EncodeChar c ++ ·)

/-- An escape stands for a byte, any other character for its UTF-8 bytes; what the bytes decode to.
The first byte of a character never goes on with another one, so a character that is escaped in part
is refused. -/
def decodeURIComponent (s : List Char) : Option (List Char) := (octets s).bind decodeUtf8

theorem octets_literal {c : Char} (hc : c ≠ '%') (s : List Char) :
    octets (c :: s) = (octets s).map (String.utf8EncodeChar c ++ ·) := by
  rw [octets.eq_def]
  split
  · rename_i h
    cases h
  · rename_i h
    exact absurd (List.cons.inj h).1 hc
  · rename_i h
    exact absurd (List.cons.inj h).1 hc
  · rename_i h
    obtain ⟨rfl, rfl⟩ := List.cons.inj h
    rfl

theorem hexValue_hexDigit {n : Nat} (h : n < 16) : hexValue (hexDigit n) = some n := by
  have hall : ∀ n < 16, hexValue (hexDigit n) = some n := by decide
  exact hall n h

theorem octets_escape (b : UInt8) (s : List Char) :
    octets (escape b ++ s) = (octets s).map (b :: ·) := by
  have hb : b.toNat < 256 := b.toNat_lt
  have hround : UInt8.ofNat (16 * (b.toNat / 16) + b.toNat % 16) = b := by
    rw [Nat.div_add_mod, UInt8.ofNat_toNat]
  simp only [escape, List.cons_append, List.nil_append, octets]
  rw [hexValue_hexDigit (by omega), hexValue_hexDigit (by omega)]
  simp only [Option.bind_some, hround]

theorem octets_escapes (bytes : List UInt8) (s : List Char) :
    octets (bytes.flatMap escape ++ s) = (octets s).map (bytes ++ ·) := by
  induction bytes with
  | nil => simp
  | cons b bytes ih =>
    rw [List.flatMap_cons, List.append_assoc, octets_escape, ih, Option.map_map]
    rfl

theorem hexValue_question : hexValue '?' = none := by decide

theorem octets_question (s t : List Char) :
    octets (s ++ '?' :: t) = (octets s).bind fun a => (octets t).map fun b => a ++ 0x3F :: b := by
  induction s using octets.induct with
  | case1 =>
    rw [List.nil_append, octets_literal (by decide)]
    rfl
  | case2 a b s ih =>
    simp only [List.cons_append, octets, ih]
    cases hexValue a with
    | none => rfl
    | some x =>
      cases hexValue b with
      | none => rfl
      | some y =>
        cases octets s with
        | none => rfl
        | some bytes => simp [Option.map_map, Function.comp_def]
  | case3 s h =>
    -- the escape is cut off by the question mark
    cases s with
    | nil =>
      cases t with
      | nil => rfl
      | cons b t =>
        simp only [List.cons_append, List.nil_append, octets, hexValue_question]
        rfl
    | cons a s =>
      cases s with
      | nil =>
        simp only [List.cons_append, List.nil_append, octets, hexValue_question]
        cases hexValue a with
        | none => rfl
        | some x => rfl
      | cons b s => exact (h a b s rfl).elim
  | case4 c s _ hc ih =>
    rw [List.cons_append, octets_literal hc, octets_literal hc, ih]
    cases octets s with
    | none => rfl
    | some bytes => simp [Option.map_map, Function.comp_def]

end Data.Percent
