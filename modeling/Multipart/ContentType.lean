import Multipart.Text.Blank
import Multipart.Text.Letters
import Multipart.Text.Split
import Multipart.UploadError

/-!
# The content type of a request

A Content-Type value is a media type and parameters, separated by
semicolons. Quotes do not protect a semicolon here. The parameter that
matters is the boundary: the first one with that name decides, and an
empty one is as bad as none.
-/

namespace Multipart

namespace ContentType

def multipartFormData : List Char :=
  ['m', 'u', 'l', 't', 'i', 'p', 'a', 'r', 't', '/', 'f', 'o', 'r', 'm', '-', 'd', 'a', 't', 'a']

def boundaryName : List Char := ['b', 'o', 'u', 'n', 'd', 'a', 'r', 'y']

/-- The media type in front of the parameters. -/
def essence (value : List Char) : List Char :=
  Text.trim (value.takeWhile (· != ';'))

/-- The name and value of a parameter that has both. -/
def parameter? (piece : List Char) : Option (List Char × List Char) :=
  (Text.cutAt? '=' piece).map fun (name, value) =>
    (Text.trim name, Text.trimQuotes (Text.trim value))

def parameters (value : List Char) : List (List Char × List Char) :=
  (Text.splitOn ';' value).tail.filterMap parameter?

/-- The boundary token that a Content-Type value names. -/
def boundary (value : List Char) : Except UploadError (List Char) :=
  match (parameters value).find? fun p => Text.sameLetters p.1 boundaryName with
  | some (_, token) =>
    if token.isEmpty then .error (.protocol .badBoundary) else .ok token
  | none => .error (.protocol .badBoundary)

/-- Whether a value announces a form with files. -/
def isForm (value : List Char) : Bool :=
  Text.sameLetters (essence value) multipartFormData

end ContentType

end Multipart
