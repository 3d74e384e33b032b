import Multipart.Decoder.Basic

/-!
# What part data does

Data goes to the temp file of a file part or into the value of a plain
one, and is refused if the ceiling would be crossed. A complete part is
published and its file, if it has one, closed.
-/

namespace Multipart

/-- Adds data to the content of a part. -/
def Content.write (maxFieldSize : Nat) (data : Bytes) (s : Storage) :
    Content → Except UploadError (Content × Storage)
  | .plain value =>
    if value.length + data.length > maxFieldSize then .error (.limitExceeded maxFieldSize)
    else .ok (.plain (value ++ data), s)
  | .file part =>
    match part.target.append data s with
    | .ok (target, s) => .ok (.file { part with target }, s)
    | .error e => .error e

/-- The entry that a file part makes in the form. -/
def FilePart.stored (part : FilePart) : StoredFile where
  clientName := part.clientName
  path := part.target.finish.1
  contentType := part.contentType
  size := part.target.finish.2

/-- The form and storage after a complete part was published. -/
def Form.publishPart (form : Form) (name : String) (s : Storage) : Content → Form × Storage
  | .plain value => (form.publishField name value, s)
  | .file part =>
    let published := form.publishFile name part.stored s.disk
    (published.1, { s with disk := published.2 })

end Multipart
