import Multipart.Settings
import Multipart.Delimiter
import Multipart.TempFile
import Multipart.Form.Publish

/-!
# The decoder

A decoder reads one body. It is at a boundary line, among the header
lines of a part, in the data of a part, or past the closing boundary;
`Stage` holds what is known of the current part at each of these points.
A decoder that has failed keeps nothing but the point where it stopped.

The files of the parts published so far belong to the decoder until the
form is handed over, and so does the temp file of the part that is being
read. `release` removes them all.
-/

namespace Multipart

/-- Where in a body a decoder is. -/
inductive Phase where
  | boundaryLine
  | headerLines
  | partData
  | ended
  deriving DecidableEq, Repr

def Phase.name : Phase → String
  | boundaryLine => "AwaitingBoundary"
  | headerLines => "AwaitingPartHeader"
  | partData => "StreamingPartData"
  | ended => "Ended"

/-- What a decoder says when it stops without an error. -/
inductive Progress where
  | needsMore
  | complete
  deriving DecidableEq, Repr

def Progress.name : Progress → String
  | needsMore => "Partial"
  | complete => "Complete"

/-- A file part: the temp file that takes its data, and what its header
lines say. -/
structure FilePart where
  target : TempFile
  clientName : String
  contentType : Option String
  deriving DecidableEq, Repr

/-- What the header lines of a part have said so far, once they have
named it. -/
structure Heading where
  name : String
  file : Option FilePart
  deriving DecidableEq, Repr

/-- Where the data of a part goes. -/
inductive Content where
  | plain (value : Bytes)
  | file (part : FilePart)
  deriving DecidableEq, Repr

namespace Content

/-- The content of a part whose header lines are complete. -/
def ofHeading (heading : Heading) : Content :=
  match heading.file with
  | some part => .file part
  | none => .plain []

def file? : Content → Option FilePart
  | plain _ => none
  | file part => some part

end Content

/-- Where a decoder is, with what it knows of the part it is reading. -/
inductive Stage where
  | boundaryLine
  /-- Without a heading the part has no name yet. -/
  | headerLines (heading : Option Heading)
  | partData (name : String) (content : Content)
  | ended
  /-- Failed for good, at this point. -/
  | failed (phase : Phase)
  deriving DecidableEq, Repr

namespace Stage

def phase : Stage → Phase
  | boundaryLine => .boundaryLine
  | headerLines _ => .headerLines
  | partData _ _ => .partData
  | ended => .ended
  | failed phase => phase

def field? : Stage → Option String
  | headerLines heading => heading.map Heading.name
  | partData name _ => some name
  | _ => none

def openFile? : Stage → Option FilePart
  | headerLines heading => heading.bind Heading.file
  | partData _ content => content.file?
  | _ => none

/-- The value of the plain field that is being read, as far as it was
copied. -/
def value : Stage → Bytes
  | partData _ (.plain value) => value
  | _ => []

def hasFailed : Stage → Bool
  | failed _ => true
  | _ => false

end Stage

structure Decoder where
  settings : Settings
  /-- What ends part data: two hyphens and the boundary token. -/
  delimiter : Bytes
  stage : Stage
  form : Form

namespace Decoder

/-- A decoder for a body with this boundary token. The upload folder is
published at once. -/
def new (token : String) (settings : Settings) : Except UploadError Decoder :=
  if token = "" then .error (.protocol .badBoundary)
  else
    .ok
      { settings
        delimiter := Delimiter.ofToken token
        stage := .boundaryLine
        form := Form.forFolder settings.uploadDir }

def phase (d : Decoder) : Phase := d.stage.phase

/-- The storage without the temp file that a stage has open. -/
def dropOpenFile (file : Option FilePart) (s : Storage) : Storage :=
  match file with
  | some part => part.target.discard s
  | none => s

/-- The storage without the files that belong to the decoder. -/
def release (d : Decoder) (s : Storage) : Storage :=
  (dropOpenFile d.stage.openFile? s).onDisk d.form.removeFiles

def fail (d : Decoder) : Decoder := { d with stage := .failed d.phase, form := .empty }

end Decoder

end Multipart
