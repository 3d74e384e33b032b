import Multipart.Decoder.Basic
import Multipart.PartHeader

/-!
# What header lines do

A Content-Disposition describes its part from scratch, so it ends
whatever an earlier one began. Its attributes are taken in order: a name
names the part, also once it has a file, and a file name creates the temp
file, for which the part must have a name and no file yet. A Content-Type
counts only for a part that has a file already.
-/

namespace Multipart

/-- What attributes have to do with the part they describe. -/
inductive Role where
  | name
  | filename
  | other
  deriving DecidableEq, Repr

def Attribute.nameToken : List Char := ['n', 'a', 'm', 'e']

def Attribute.filenameToken : List Char := ['f', 'i', 'l', 'e', 'n', 'a', 'm', 'e']

/-- The role of an attribute, read off its token. -/
def Attribute.role (a : Attribute) : Role :=
  if Text.sameLetters a.token nameToken then .name
  else if Text.sameLetters a.token filenameToken then .filename
  else .other

def Attribute.text (a : Attribute) : String := String.ofList a.value

namespace Heading

/-- The part under another name, or under its first. -/
def rename (heading : Option Heading) (name : String) : Heading :=
  match heading with
  | some h => { h with name }
  | none => ⟨name, none⟩

/-- What attributes make of a part: the error that stopped them, and the
heading and storage as they left them. -/
structure Described where
  error : Option UploadError
  heading : Option Heading
  storage : Storage

/-- Takes attributes in order, up to the first error. -/
def describe (settings : Settings) : List Attribute → Option Heading → Storage → Described
  | [], heading, s => ⟨none, heading, s⟩
  | a :: rest, heading, s =>
    match a.role with
    | .other => describe settings rest heading s
    | .name => describe settings rest (some (rename heading a.text)) s
    | .filename =>
      match heading with
      | none => ⟨some (.protocol .missingName), none, s⟩
      | some ⟨name, some part⟩ => ⟨some (.protocol .duplicateFilename), some ⟨name, some part⟩, s⟩
      | some ⟨name, none⟩ =>
        match TempFile.create settings.uploadDir settings.maxFileSize s with
        | (.error e, s) => ⟨some e, some ⟨name, none⟩, s⟩
        | (.ok target, s) => describe settings rest (some ⟨name, some ⟨target, a.text, none⟩⟩) s

def withContentType (heading : Option Heading) (value : String) : Option Heading :=
  heading.map fun h =>
    { h with file := h.file.map fun part => { part with contentType := some value } }

/-- What a header line that is not empty makes of a part. -/
def read (settings : Settings) (line : List Char) (heading : Option Heading) (s : Storage) :
    Described :=
  match PartHeader.parse line with
  | .disposition attributes =>
    describe settings attributes none (Decoder.dropOpenFile (heading.bind Heading.file) s)
  | .contentType value => ⟨none, withContentType heading (String.ofList value), s⟩
  | .other => ⟨none, heading, s⟩

end Heading

end Multipart
