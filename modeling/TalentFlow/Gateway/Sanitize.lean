import TalentFlow.Data.Json
import TalentFlow.Data.Replace
import Mathlib.Data.List.Infix

/-!
# Gateway.Sanitize

The part of `sanitize.util.ts` that masks sensitive values before they are logged.
-/

namespace TalentFlow.Sanitize

open Data

/-- Keys that potentially contain sensitive information. -/
def SENSITIVE_KEYS : List String :=
  ["password", "passwd", "pwd", "secret", "token", "apikey", "api_key", "authorization", "auth",
    "cookie", "cookies", "credentials", "credential", "privatekey", "private_key", "accesskey",
    "access_key", "secretkey", "secret_key", "sessionid", "session_id", "bearer", "apitoken",
    "api_token"]

def MAX_DEPTH : Nat := 5

/-- The lower-case form of one character, where that form has an ASCII character in it: the
ASCII letters, the Kelvin sign and the dotted capital I. Any other character stands for its
own lower-case form, which is not ASCII either and so is in no term. -/
def toLowerChar (c : Char) : List Char :=
  if c.val = 0x212A then ['k']
  else if c.val = 0x0130 then ['i', Char.ofNat 0x0307]
  else [c.toLower]

def toLowerCase (s : String) : String := String.ofList (s.toList.flatMap toLowerChar)

/-- `String.prototype.includes`. -/
def includes (s term : String) : Prop := term.toList <:+: s.toList

instance (s term : String) : Decidable (includes s term) :=
  inferInstanceAs (Decidable (term.toList <:+: s.toList))

/-- A property name to which an assignment creates a property of that name. -/
structure PropertyName where
  name : String
  not_proto : name ≠ "__proto__"
deriving DecidableEq

def IsSensitive (key : PropertyName) : Prop :=
  ∃ term ∈ SENSITIVE_KEYS, includes (toLowerCase key.name) term

instance (key : PropertyName) : Decidable (IsSensitive key) :=
  inferInstanceAs (Decidable (∃ term ∈ SENSITIVE_KEYS, includes (toLowerCase key.name) term))

variable {ν : Type}

def redacted : Json PropertyName ν := .string "[REDACTED]"

mutual

/-- `sanitize(obj, depth)`. -/
def sanitizeAt (depth : Nat) (obj : Json PropertyName ν) : Json PropertyName ν :=
  if MAX_DEPTH < depth then .string "[MAX_DEPTH_EXCEEDED]"
  else
    match obj with
    | .array items => .array (sanitizeItems (depth + 1) items)
    | .object entries => .object (sanitizeEntries (depth + 1) entries)
    | primitive => primitive

/-- `obj.map((item) => sanitize(item, depth))`. -/
def sanitizeItems (depth : Nat) : List (Json PropertyName ν) → List (Json PropertyName ν)
  | [] => []
  | item :: items => sanitizeAt depth item :: sanitizeItems depth items

/-- The loop over `Object.entries(obj)`. A primitive value is kept whatever its depth. -/
def sanitizeEntries (depth : Nat) :
    List (PropertyName × Json PropertyName ν) → List (PropertyName × Json PropertyName ν)
  | [] => []
  | (key, value) :: entries =>
    (key,
      if IsSensitive key then redacted
      else if value.isPrimitive then value
      else sanitizeAt depth value) :: sanitizeEntries depth entries

end

def sanitize (obj : Json PropertyName ν) : Json PropertyName ν := sanitizeAt 0 obj

/-! ## Texts -/

/-- `\w` -/
def wordChar (c : Char) : Bool := c.isAlphanum || c == '_'

/-- `\s` -/
def whiteSpace (c : Char) : Bool :=
  (0x09 ≤ c.val && c.val ≤ 0x0D) || c == ' ' || c.val == 0xA0 || c.val == 0x1680 ||
    (0x2000 ≤ c.val && c.val ≤ 0x200A) || c.val == 0x2028 || c.val == 0x2029 || c.val == 0x202F ||
    c.val == 0x205F || c.val == 0x3000 || c.val == 0xFEFF

/-- A word in lower case, whatever the case in the text. -/
def ignoringCase (w : String) : Regex := .word (w.toList.map fun l c => c.toLower == l)

/-- `/(\w+:\/\/)([^:]+):([^@]+)@/g` -/
def connectionStrings : Pattern where
  parts := [.seq (.plus (.one wordChar)) (.word [(· == ':'), (· == '/'), (· == '/')]),
    .plus (.one (· != ':')), .one (· == ':'), .plus (.one (· != '@')), .one (· == '@')]
  positive := by decide

/-- `/Bearer\s+[\w-]+/gi` -/
def bearerTokens : Pattern where
  parts := [ignoringCase "bearer", .plus (.one whiteSpace),
    .plus (.one fun c => wordChar c || c == '-')]
  positive := by decide

/-- `/([?&])(api[_-]?key|token|secret)=[^&\s]+/gi` -/
def apiKeys : Pattern where
  parts := [.one fun c => c == '?' || c == '&',
    .alt (.seq (ignoringCase "api") (.seq (.opt (.one fun c => c == '_' || c == '-'))
      (ignoringCase "key"))) (.alt (ignoringCase "token") (ignoringCase "secret")),
    .one (· == '='), .plus (.one fun c => c != '&' && !whiteSpace c)]
  positive := by decide

/-- `$1$2`; in each pattern the groups are the first parts. -/
def groups (words : List (List Char)) : List Char := (words.take 2).flatten

def sanitizeChars (str : List Char) : List Char :=
  let sanitized := connectionStrings.replaceAll (fun m => groups m ++ ":[REDACTED]@".toList) str
  let sanitized := bearerTokens.replaceAll (fun _ => "Bearer [REDACTED]".toList) sanitized
  apiKeys.replaceAll (fun m => groups m ++ "=[REDACTED]".toList) sanitized

def sanitizeString (str : String) : String := String.ofList (sanitizeChars str.toList)

/-- What a `catch` gets. -/
inductive Thrown (ν : Type) where
  /-- `instanceof Error` -/
  | error (name message : String) (stack : Option String)
  | string (s : String)
  | object (obj : { v : Json PropertyName ν // v.isPrimitive = false })
  /-- anything else, as `String(error)` shows it -/
  | other (shown : String)

inductive SanitizedError (ν : Type) where
  | error (name message : String) (stack : Option String)
  | text (message : String)
  | object (obj : Json PropertyName ν)

def sanitizeError : Thrown ν → SanitizedError ν
  | .error name message stack =>
    .error name (sanitizeString message) ((stack.filter (· ≠ "")).map sanitizeString)
  | .string s => .text (sanitizeString s)
  | .object obj => .object (sanitize obj.val)
  | .other shown => .text shown

def SanitizedError.message? : SanitizedError ν → Option String
  | .error _ message _ => some message
  | .text message => some message
  | .object _ => none

end TalentFlow.Sanitize
