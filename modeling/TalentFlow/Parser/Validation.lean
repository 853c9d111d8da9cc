import TalentFlow.Data.Regex
import Mathlib.Algebra.Ring.Nat

/-!
# Parser.Validation

What the CV parser demands of a message: the bean-validation constraints of `CvUploadedEvent`, and
the checks of `FileValidator` on a file key and a bucket name. `@Pattern` and `Matcher.matches` are
about the whole text, `Matcher.find` about any part of it.
-/

namespace TalentFlow.CvParser

open Data

/-! ## Character classes -/

/-- `[0-9a-fA-F]` -/
def hexDigit (c : Char) : Bool :=
  c.isDigit || decide ('a' ≤ c ∧ c ≤ 'f') || decide ('A' ≤ c ∧ c ≤ 'F')

/-- `[a-z0-9]` -/
def bucketEnd (c : Char) : Bool := c.isLower || c.isDigit

/-- `[a-z0-9.-]` -/
def bucketChar (c : Char) : Bool := bucketEnd c || c == '.' || c == '-'

/-- `[a-zA-Z0-9/_.-]` -/
def fileKeyChar (c : Char) : Bool := c.isAlphanum || c == '/' || c == '_' || c == '.' || c == '-'

/-- One given character. -/
def char (c : Char) : Regex := .one (· == c)

/-! ## CvUploadedEvent -/

/-- The event as Jackson reads it. A field that is missing from the message is null. -/
structure CvUploadedEvent (Instant : Type) where
  candidateId : Option String
  applicationId : Option String
  jobId : Option String
  bucket : Option String
  fileKey : Option String
  mimeType : Option String
  uploadedAt : Option Instant

def UUID_PATTERN : Regex :=
  .seq (.times 8 (.one hexDigit)) (.seq (char '-') (.seq (.times 4 (.one hexDigit))
    (.seq (char '-') (.seq (.times 4 (.one hexDigit)) (.seq (char '-')
      (.seq (.times 4 (.one hexDigit)) (.seq (char '-') (.times 12 (.one hexDigit)))))))))

/-- The pattern of `CvUploadedEvent.bucket`. -/
def BUCKET_PATTERN : Regex :=
  .seq (.one bucketEnd) (.seq (.between 1 61 (.one bucketChar)) (.one bucketEnd))

/-- `^[a-zA-Z0-9/_.-]+$`, of `CvUploadedEvent.fileKey` and of `FileValidator`. -/
def VALID_FILE_KEY_PATTERN : Regex := .plus (.one fileKeyChar)

/-- `@NotBlank`: something is left after `trim`, which takes off all characters up to the blank. -/
def notBlank (value : Option String) : Bool := value.any fun s => s.toList.any (' ' < ·)

/-- `@Pattern`, which null passes. -/
def pattern (regexp : Regex) (value : Option String) : Bool := value.all regexp.isMatch

/-- The message of a constraint that is not met. -/
def constraint (holds : Bool) (message : String) : List String := if holds then [] else [message]

/-- The violated constraints of an event. -/
def CvUploadedEvent.violations {Instant : Type} (e : CvUploadedEvent Instant) : List String :=
  constraint (notBlank e.candidateId) "candidateId is required" ++
  constraint (pattern UUID_PATTERN e.candidateId) "candidateId must be a valid UUID" ++
  constraint (notBlank e.applicationId) "applicationId is required" ++
  constraint (pattern UUID_PATTERN e.applicationId) "applicationId must be a valid UUID" ++
  constraint (notBlank e.jobId) "jobId is required" ++
  constraint (pattern UUID_PATTERN e.jobId) "jobId must be a valid UUID" ++
  constraint (notBlank e.bucket) "bucket is required" ++
  constraint (pattern BUCKET_PATTERN e.bucket) "bucket must be a valid S3 bucket name" ++
  constraint (notBlank e.fileKey) "fileKey is required" ++
  constraint (pattern VALID_FILE_KEY_PATTERN e.fileKey) "fileKey contains invalid characters" ++
  constraint (notBlank e.mimeType) "mimeType is required" ++
  constraint e.uploadedAt.isSome "uploadedAt is required"

/-! ## FileValidator -/

namespace FileValidator

/-- The text, in any letter case. -/
def caseless (s : String) : Regex := .word (s.toList.map fun c d => d.toLower == c.toLower)

/-- Path traversal attempts, plain and percent-encoded. -/
def PATH_TRAVERSAL_PATTERN : Regex :=
  .alt (caseless "../") (.alt (caseless "..\\") (.alt (caseless "%2e%2e%2f")
    (.alt (caseless "%2e%2e/") (.alt (caseless "..%2f") (caseless "%2e%2e%5c")))))

def allowedTypes : List String :=
  ["application/pdf", "application/vnd.openxmlformats-officedocument.wordprocessingml.document"]

/-- The message is that of the `IllegalArgumentException`. -/
def validateFileKey (fileKey : Option String) : Except String Unit := do
  match fileKey with
  | none => throw "File key cannot be null or empty"
  | some fileKey =>
    if fileKey = "" then throw "File key cannot be null or empty"
    if PATH_TRAVERSAL_PATTERN.find fileKey then throw "File key contains path traversal sequence"
    if !VALID_FILE_KEY_PATTERN.isMatch fileKey then throw "File key contains invalid characters"
    if ['/', '/'] <:+: fileKey.toList then throw "File key contains invalid double slash"
    if ['/'] <+: fileKey.toList then throw "File key cannot start with slash"

/-- `String.length` of Java: a character beyond U+FFFF takes two UTF-16 code units. -/
def length (s : String) : Nat := (s.toList.map fun c => if c.val ≤ 0xFFFF then 1 else 2).sum

/-- The pattern in `validateBucket`. -/
def BUCKET_PATTERN : Regex :=
  .seq (.one bucketEnd) (.seq (.star (.one bucketChar)) (.one bucketEnd))

def validateBucket (bucket : Option String) : Except String Unit := do
  match bucket with
  | none => throw "Bucket name cannot be null or empty"
  | some bucket =>
    if bucket = "" then throw "Bucket name cannot be null or empty"
    if length bucket < 3 ∨ 63 < length bucket then throw "Bucket name must be 3-63 characters"
    if !BUCKET_PATTERN.isMatch bucket then throw "Bucket name contains invalid characters"

end FileValidator

end TalentFlow.CvParser
