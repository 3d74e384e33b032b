import Multipart.Body
import Multipart.ContentType

/-!
# Upload requests

Which requests carry an upload, and how one is decoded: the form ends up
with the request, or the request is answered with an error and keeps what
it had.
-/

namespace Multipart

/-- What matters of an HTTP request here. -/
structure Request where
  method : String
  contentTypes : List String
  body : BodyReader
  form : Option Form

structure Answered where
  result : Except HttpError Unit
  request : Request
  storage : Storage

namespace Request

/-- The methods that send an upload. -/
def uploadMethods : List (List Char) := [['p', 'o', 's', 't'], ['p', 'u', 't']]

def contentType? (r : Request) : Option (List Char) := r.contentTypes.getLast?.map String.toList

/-- Whether the request carries a form with files. -/
def isUpload (r : Request) : Bool :=
  uploadMethods.any (Text.sameLetters r.method.toList) && r.contentType?.any ContentType.isForm

/-- A decoder for the body of an upload. A request that is none gets no
decoder. -/
def decoder (r : Request) (settings : Settings) : Except UploadError (Option Decoder) :=
  if !r.isUpload then .ok none
  else do
    let token ← ContentType.boundary (r.contentType?.getD [])
    let d ← Decoder.new (String.ofList token) settings
    pure (some d)

/-- Decodes the body of a request and keeps the form with the request. -/
def decode (r : Request) (settings : Settings) (s : Storage) : Answered :=
  match r.decoder settings with
  | .error e => ⟨.error e.toHttp, r, s⟩
  | .ok none => ⟨.error (UploadError.protocol .notAnUpload).toHttp, r, s⟩
  | .ok (some d) =>
    let decoded := d.decodeBody s r.body
    match decoded.result with
    | .error e => ⟨.error e.toHttp, { r with body := decoded.reader }, decoded.storage⟩
    | .ok form =>
      ⟨.ok (), { r with body := decoded.reader, form := some form }, decoded.storage⟩

end Request

end Multipart
