import TalentFlow.Data.Replace
import TalentFlow.Parser.Validation

/-!
# Parser.PiiRedactor

What the CV parser takes out of a text before it logs it. The patterns are those of
`PiiRedactor`; `\b` is the word boundary of the Java 17 library, which knows letters, digits and
marks of all scripts.
-/

namespace TalentFlow.CvParser

open Data

/-- What the word boundary asks of the Unicode character database. -/
structure CharacterData where
  /-- `Character.isLetterOrDigit` -/
  isLetterOrDigit : Char → Bool
  /-- `Character.getType` is `NON_SPACING_MARK` -/
  isNonSpacingMark : Char → Bool
  ascii : ∀ c : Char, c.val < 128 →
    isLetterOrDigit c = c.isAlphanum ∧ isNonSpacingMark c = false

namespace CharacterData

variable (data : CharacterData)

/-- `Bound.isWord` -/
def isWord (c : Char) : Bool := c == '_' || data.isLetterOrDigit c

/-- `Bound.hasBaseCharacter`: what stands before, latest character first, is a letter or digit with
marks on it. The library goes back one UTF-16 unit at a time, and the second unit of a character
beyond the basic plane is neither. -/
def hasBaseCharacter : List Char → Bool
  | [] => false
  | c :: before =>
    if 0x10000 ≤ c.val then false
    else if data.isLetterOrDigit c then true
    else if data.isNonSpacingMark c then hasBaseCharacter before
    else false

/-- The character before a place belongs to a word. -/
def wordBefore : List Char → Bool
  | [] => false
  | c :: before =>
    data.isWord c || (data.isNonSpacingMark c && data.hasBaseCharacter (c :: before))

/-- The character after a place belongs to a word. -/
def wordAfter (before : List Char) : List Char → Bool
  | [] => false
  | c :: _ => data.isWord c || (data.isNonSpacingMark c && data.hasBaseCharacter before)

/-- `\b` -/
def boundary (before s : List Char) : Bool := data.wordBefore before != data.wordAfter before s

end CharacterData

namespace PiiRedactor

/-- `[a-zA-Z0-9._%+-]` -/
def localChar (c : Char) : Bool :=
  c.isAlphanum || c == '.' || c == '_' || c == '%' || c == '+' || c == '-'

/-- `[a-zA-Z0-9.-]` -/
def domainChar (c : Char) : Bool := c.isAlphanum || c == '.' || c == '-'

/-- `\s` -/
def space (c : Char) : Bool :=
  c == ' ' || c == '\t' || c == '\n' || c == '\x0B' || c == '\x0C' || c == '\r'

def digits (m n : Nat) : Regex := .between m n (.one Char.isDigit)

/-- `[-.]?` -/
def phoneSeparator : Regex := .opt (.one fun c => c == '-' || c == '.')

/-- `\d{4}[-\s]?` -/
def cardGroup : Regex :=
  .seq (.times 4 (.one Char.isDigit)) (.opt (.one fun c => c == '-' || space c))

def EMAIL_PATTERN : Pattern where
  parts := [.plus (.one localChar), char '@', .plus (.one domainChar), char '.',
    .times 2 (.one Char.isAlpha), .star (.one Char.isAlpha)]
  positive := by decide

def PHONE_PATTERN : Pattern where
  parts := [.opt (.seq (.opt (char '+')) (.seq (digits 1 3) phoneSeparator)),
    .opt (char '('), digits 2 4, .opt (char ')'), phoneSeparator, digits 3 4, phoneSeparator,
    digits 3 4]
  positive := by decide

def CREDIT_CARD_PATTERN (data : CharacterData) : Pattern where
  parts := [.times 3 cardGroup, .times 4 (.one Char.isDigit)]
  positive := by decide
  start := data.boundary
  stop := data.boundary

def REDACTED_EMAIL : String := "[EMAIL_REDACTED]"
def REDACTED_PHONE : String := "[PHONE_REDACTED]"
def REDACTED_CARD : String := "[CARD_REDACTED]"

/-- The three replacements, on the characters of a text. -/
def redactAll (data : CharacterData) (text : List Char) : List Char :=
  let result := EMAIL_PATTERN.replaceAll (fun _ => REDACTED_EMAIL.toList) text
  let result := PHONE_PATTERN.replaceAll (fun _ => REDACTED_PHONE.toList) result
  (CREDIT_CARD_PATTERN data).replaceAll (fun _ => REDACTED_CARD.toList) result

def redact (data : CharacterData) (text : Option String) : Option String :=
  match text with
  | none => text
  | some s => if s.isEmpty then text else some (String.ofList (redactAll data s.toList))

end PiiRedactor

end TalentFlow.CvParser
