import ContractCheck.Files.Disk
import ContractCheck.Notice
import ContractCheck.Settings.Basic
import ContractCheck.Text.Order

/-!
Which files are analysed: the PHP files below the given directories and the files given one by one,
without those that are excluded.
-/
namespace ContractCheck.Files

def isUnder (path directory : String) : Bool :=
  path == directory ||
    path.startsWith (String.ofList (Text.dropEndWhile (· = '/') directory.toList) ++ "/")

structure Exclusion where
  directories : List String
  files : List String

def Exclusion.keeps (e : Exclusion) (path : String) : Bool :=
  !e.files.contains path && !e.directories.any (isUnder path)

def Exclusion.ofSettings (d : Disk) (s : Settings) : Exclusion where
  directories := s.excludedDirectories.map d.absolute
  files := s.excludedFiles.map d.absolute

mutual

/-- The PHP files that are kept at or below an entry. A folder is not entered if it is excluded, or
if the text by which the walk has come to it is too long for a path. -/
def phpFilesAt (e : Exclusion) (path : Path) (text name : String) : Entry → List String
  | .file _ => if name.endsWith ".php" && e.keeps path.render then [path.render] else []
  | .folder entries =>
    if e.keeps path.render && text.utf8ByteSize ≤ maxPathSize then phpFilesIn e path text entries
    else []
  | .closed => []

def phpFilesIn (e : Exclusion) (path : Path) (text : String) : List (String × Entry) → List String
  | [] => []
  | (name, entry) :: rest =>
    phpFilesAt e (path.child name) (Path.childText text name) name entry ++
      phpFilesIn e path text rest

end

def filesBelow (d : Disk) (e : Exclusion) (directory : String) : Except Notice (List String) :=
  match d.find? directory with
  | some (.folder entries) =>
    .ok (phpFilesIn e (Path.absolute d.workingDirectory directory) directory entries)
  | some .closed => .ok []
  | _ => .error (.notDirectory directory)

def givenFile (d : Disk) (e : Exclusion) (file : String) : Except Notice (List String) :=
  let path := d.absolute file
  if d.isFile path then .ok (if e.keeps path then [path] else [])
  else .error (.fileNotFound file)

def candidates (d : Disk) (s : Settings) : List (Except Notice (List String)) :=
  let e := Exclusion.ofSettings d s
  s.directories.map (filesBelow d e) ++ s.files.map (givenFile d e)

def select (d : Disk) (s : Settings) : List String :=
  Text.sorted ((candidates d s).flatMap fun c => c.toOption.getD []).eraseDups

def selectNotices (d : Disk) (s : Settings) : List Notice :=
  (candidates d s).filterMap fun c =>
    match c with
    | .ok _ => none
    | .error n => some n

end ContractCheck.Files
