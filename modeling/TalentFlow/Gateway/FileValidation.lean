import TalentFlow.Gateway.Applications

/-!
# Gateway.FileValidation

`FileValidationPipe`: what an upload has to look like before its handler runs.
-/

namespace TalentFlow

/-- `Express.Multer.File`, kept in memory. -/
structure MulterFile extends UploadedFile where
  size : Nat

namespace FileValidationPipe

def ALLOWED_MIME_TYPES : List String :=
  ["application/pdf", "application/vnd.openxmlformats-officedocument.wordprocessingml.document"]

def ALLOWED_EXTENSIONS : List String := ["pdf", "docx"]

def MAX_FILE_SIZE_BYTES : Nat := 10 * 1024 * 1024

/-- `%PDF-` -/
def PDF_SIGNATURE : List UInt8 := [0x25, 0x50, 0x44, 0x46, 0x2D]

def ZIP_SIGNATURES : List (List UInt8) :=
  [[0x50, 0x4B, 0x03, 0x04], [0x50, 0x4B, 0x05, 0x06], [0x50, 0x4B, 0x07, 0x08]]

def hasSignature (buffer signature : List UInt8) : Bool := signature.isPrefixOf buffer

/-- What follows the last dot of a name, or all of it, in lower case. Letters outside ASCII are
left alone: no lower-case form of them is in an allowed extension. -/
def extensionOf (originalname : String) : String :=
  String.ofList (((originalname.toList.splitOn '.').getLastD []).map Char.toLower)

def validateFileSignature (file : MulterFile) (extension : String) : Except Exception Unit := do
  if file.buffer.isEmpty then throw (.badRequest "Unable to validate file content")
  if extension = "pdf" ∧ !hasSignature file.buffer PDF_SIGNATURE then
    throw (.badRequest "Invalid PDF file signature")
  if extension = "docx" ∧ !ZIP_SIGNATURES.any (hasSignature file.buffer) then
    throw (.badRequest "Invalid DOCX file signature")

def transform (file : Option MulterFile) : Except Exception MulterFile := do
  match file with
  | none => throw (.badRequest "File is required")
  | some file =>
    if !ALLOWED_MIME_TYPES.contains file.mimetype then
      throw (.badRequest "Invalid file type. Only PDF and DOCX files are allowed")
    let extension := extensionOf file.originalname
    if extension = "" ∨ !ALLOWED_EXTENSIONS.contains extension then
      throw (.badRequest "Invalid file extension. Only .pdf and .docx files are allowed")
    validateFileSignature file extension
    if MAX_FILE_SIZE_BYTES < file.size then
      throw (.badRequest "File size exceeds 10MB limit")
    return file

end FileValidationPipe

end TalentFlow
