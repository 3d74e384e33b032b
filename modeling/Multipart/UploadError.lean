import Multipart.IoError

/-!
# Upload errors

Why an upload is refused. There are three kinds: the body or the request
breaks the framing rules (`Violation`), the server could not do its part
(`Activity` and the I/O error behind it), or a file or field is larger
than allowed. Each kind has one HTTP status, and every cause one text.
-/

namespace Multipart

/-- What is wrong with a body, a request, or the way a decoder is used. -/
inductive Violation where
  | badBoundary
  /-- A line that should be a boundary line is none. -/
  | incompleteBoundary
  /-- The form was asked for before the closing boundary was seen. -/
  | incompleteUpload
  /-- The body ended before the closing boundary. -/
  | unexpectedEnd
  | alreadyFailed
  | lineTooLong
  /-- A part has no name, or a file name in front of it. -/
  | missingName
  | duplicateFilename
  | notAnUpload
  | other (text : String)
  deriving DecidableEq, Repr

def Violation.text : Violation → String
  | badBoundary => "Bad boundary"
  | incompleteBoundary => "Incomplete boundary"
  | incompleteUpload => "Incomplete upload"
  | unexpectedEnd => "Unexpected end of upload body"
  | alreadyFailed => "Upload session already failed"
  | lineTooLong => "Part header line too long"
  | missingName => "Missing name field"
  | duplicateFilename => "Duplicate filename attribute"
  | notAnUpload => "Not a multipart/form-data request"
  | other text => text

/-- What the server was doing when an I/O error came up. -/
inductive Activity where
  | openFile (path folder : String)
  | writeFile (path : String)
  | readBody
  | other (text : String)
  deriving DecidableEq, Repr

def Activity.text : Activity → String
  | openFile path folder =>
    "Can't open upload temp file " ++ path ++ ". Check upload temp dir " ++ folder
  | writeFile path => "Can't write to upload temp file " ++ path
  | readBody => "Can't read upload body"
  | other text => text

inductive UploadError where
  | protocol (violation : Violation)
  | resource (activity : Activity) (cause : IoError)
  /-- A file or field is larger than `limit` bytes. -/
  | limitExceeded (limit : Nat)
  deriving DecidableEq, Repr

/-- What an HTTP server answers to a refused upload. -/
structure HttpError where
  status : Nat
  message : String
  deriving DecidableEq, Repr

namespace UploadError

/-- The HTTP status of a refused upload: the client's fault, too large,
or the server's fault. -/
def status : UploadError → Nat
  | protocol _ => 400
  | limitExceeded _ => 413
  | resource _ _ => 500

def message : UploadError → String
  | protocol violation => "Bad upload state. " ++ violation.text
  | resource activity cause => activity.text ++ ": " ++ cause.message
  | limitExceeded limit => "Uploaded file exceeds maximum " ++ toString limit ++ " bytes"

/-- The answer to a refused upload keeps its status and its text. -/
def toHttp (error : UploadError) : HttpError := ⟨error.status, error.message⟩

end UploadError

end Multipart
