import Hallo.Text.Quoted

/-!
Files by their paths. A folder holds files and no folders; around it there are folders of which
nothing is known. A path is followed name by name, and the first obstacle is reported.
-/
namespace Hallo.Shell

/-- Why a file could not be read as text. -/
inductive FileProblem where
  | missing
  | isFolder
  | throughFile
  | nameTooLong
  | nullCharacter
  | notText
  | other (reason : String)
  deriving DecidableEq, Repr

/-- The wording of a problem with the file of a path. -/
def FileProblem.message (path : String) : FileProblem → String
  | .missing => "[Errno 2] No such file or directory: " ++ Text.quoted path
  | .isFolder => "[Errno 21] Is a directory: " ++ Text.quoted path
  | .throughFile => "[Errno 20] Not a directory: " ++ Text.quoted path
  | .nameTooLong => "[Errno 36] File name too long: " ++ Text.quoted path
  | .nullCharacter => "embedded null byte"
  | .notText => "not valid UTF-8: " ++ Text.quoted path
  | .other reason => reason

/-- A folder: its files by name. -/
structure Folder where
  files : List (String × ByteArray) := []

namespace Folder

/-- Where a path has led so far. -/
inductive Spot where
  | here
  | elsewhere
  | file (content : ByteArray)

/-- The names of a path, between its slashes. -/
def names : List Char → List (List Char)
  | [] => [[]]
  | '/' :: path => [] :: names path
  | c :: path =>
    match names path with
    | [] => [[c]]
    | name :: others => (c :: name) :: others

/-- The most bytes a name may have. -/
def nameLimit : Nat := 255

/-- The most bytes a path may have. -/
def pathLimit : Nat := 4095

/-- One name further. An empty name and a dot stay, two dots lead out, and nothing is behind a
    file. -/
def step (folder : Folder) (spot : Spot) (name : String) : Except FileProblem Spot :=
  match spot with
  | .file _ => .error .throughFile
  | _ =>
    if name = "" ∨ name = "." then .ok spot
    else if name = ".." then .ok .elsewhere
    else if nameLimit < name.utf8ByteSize then .error .nameTooLong
    else
      match spot, folder.files.lookup name with
      | .here, some content => .ok (.file content)
      | _, _ => .error .missing

/-- The file of a path that is taken from inside the folder. -/
def read (folder : Folder) (path : String) : Except FileProblem ByteArray := do
  if path.toList.contains '\x00' then
    throw .nullCharacter
  if pathLimit < path.utf8ByteSize then
    throw .nameTooLong
  let start := if path.toList.head? = some '/' then Spot.elsewhere else Spot.here
  match ← (names path.toList).foldlM
      (fun spot name => folder.step spot (String.ofList name)) start with
  | .file content => return content
  | _ => throw .isFolder

end Folder

end Hallo.Shell
