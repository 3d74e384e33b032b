import Multipart.Decoder.Basic
import Multipart.Text.Quoted

/-!
# A decoder in one line

The summary of a decoder for logs: its delimiter, its phase, the field it
is reading and whether it has failed. It has no form for an open file.
-/

namespace Multipart

namespace Decoder

/-- A text that may be missing. -/
def summaryOfField : Option String → String
  | some name => "Some(" ++ Text.quoted name ++ ")"
  | none => "None"

def summary? (d : Decoder) : Option String :=
  match d.stage.openFile? with
  | some _ => none
  | none =>
    some <|
      "UploadSession \x7b boundary: " ++ Text.quoted (Text.ofBytes d.delimiter) ++
      ", state: " ++ d.phase.name ++
      ", field: " ++ summaryOfField d.stage.field? ++
      ", file: None, failed: " ++ toString d.stage.hasFailed ++ " \x7d"

end Decoder

end Multipart
