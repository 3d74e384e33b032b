import Multipart.Form.Basic
import Multipart.Disk.Basic
import Multipart.Text.Utf8

/-!
# Publishing

How a completed part enters the form. A plain field is one variable. A
file is an entry among the files and four variables, so that a program
which looks at variables alone sees it too. All of them share one name
space, in which the last publication wins.
-/

namespace Multipart

namespace Form

/-! ## Names of the server's variables -/

/-- Holds the upload folder. -/
def uploadDirKey : String := "UPLOAD_DIR"

/-- Holds the file name that the client sent for the field. -/
def clientNameKey (field : String) : String := "FILE_CLIENT_FILENAME_" ++ field

/-- Holds the content type that was declared for the field, or nothing. -/
def contentTypeKey (field : String) : String := "FILE_CONTENT_TYPE_" ++ field

/-- Holds the path of the field's file. -/
def pathKey (field : String) : String := "FILE_FILENAME_" ++ field

/-- Holds the size of the field's file in bytes. -/
def sizeKey (field : String) : String := "FILE_SIZE_" ++ field

/-! ## Parts -/

/-- The form of an upload into a folder before its first part. -/
def forFolder (uploadDir : String) : Form :=
  { empty with vars := empty.vars.insert uploadDirKey uploadDir }

/-- Publishes a plain field. Its value is read as text. -/
def publishField (form : Form) (field : String) (value : Bytes) : Form :=
  { form with vars := form.vars.insert field (Text.ofBytes value) }

/-- The variables that a file sets, in the order in which it sets them. -/
def fileVariables (field : String) (file : StoredFile) : List (String × String) :=
  [(clientNameKey field, file.clientName),
    (contentTypeKey field, file.contentType.getD ""),
    (pathKey field, file.path.text),
    (sizeKey field, toString file.size)]

/-- The form with a file and its variables. -/
def withFile (form : Form) (field : String) (file : StoredFile) : Form where
  vars := (fileVariables field file).foldl (fun vars v => vars.insert v.1 v.2) form.vars
  files := form.files.insert field file

/-- Publishes a file. One that was published for the same field before is
replaced, and removed from disk. -/
def publishFile (form : Form) (field : String) (file : StoredFile) (disk : Disk) : Form × Disk :=
  (form.withFile field file,
    match form.files.get? field with
    | some replaced => disk.remove replaced.path
    | none => disk)

/-- Removes every file of a form from disk. -/
def removeFiles (form : Form) (disk : Disk) : Disk :=
  form.files.values.foldl (fun disk file => disk.remove file.path) disk

theorem removeFiles_eq (form : Form) (disk : Disk) :
    form.removeFiles disk = (form.files.values.map StoredFile.path).foldl Disk.remove disk := by
  rw [removeFiles, List.foldl_map]

end Form

end Multipart
