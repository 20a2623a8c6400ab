import ContractCheck.Files.Path
import ContractCheck.Settings.Value
import ContractCheck.Syntax.Node
import ContractCheck.Text.Quoted
import ContractCheck.Text.Utf8

/-!
The files that a run can see: a tree of folders without links, with a working directory. Beside the
bytes of a file stands what parsers make of it.
-/
namespace ContractCheck.Files

structure Parse where
  hasError : Bool := false
  rows : List Syntax.Row := []

/-- A file, which may be one that cannot be opened. The document is what a reader makes of it as far
as it gets: bytes that are no text stop it, if no error did so before. -/
structure File where
  readable : Bool := true
  bytes : List UInt8 := []
  parse : Parse := {}
  document : Settings.Document := .invalid

/-- A closed folder can be neither listed nor searched. -/
inductive Entry where
  | file (f : File)
  | folder (entries : List (String × Entry))
  | closed

namespace Entry

def isFile : Entry → Bool
  | file _ => true
  | folder _ | closed => false

def isFolder : Entry → Bool
  | file _ => false
  | folder _ | closed => true

end Entry

inductive ReadFault where
  | missing (path : String)
  | isDirectory (path : String)
  | notDirectory (path : String)
  | tooLong (path : String)
  | denied (path : String)
  | undecodable (fault : Text.Utf8.Fault)

def ReadFault.message : ReadFault → String
  | .missing path => "[Errno 2] No such file or directory: " ++ Text.quoted path
  | .isDirectory path => "[Errno 21] Is a directory: " ++ Text.quoted path
  | .notDirectory path => "[Errno 20] Not a directory: " ++ Text.quoted path
  | .tooLong path => "[Errno 36] File name too long: " ++ Text.quoted path
  | .denied path => "[Errno 13] Permission denied: " ++ Text.quoted path
  | .undecodable fault => fault.message

inductive Found where
  | entry (e : Entry)
  | nothing
  | throughFile
  | tooLong
  | denied

def maxNameSize : Nat := 255

def maxPathSize : Nat := 4095

def Entry.descend : Entry → List String → Found
  | e, [] => .entry e
  | file _, _ :: _ => .throughFile
  | closed, _ :: _ => .denied
  | folder entries, name :: rest =>
    if name.utf8ByteSize > maxNameSize then .tooLong
    else
      match entries.lookup name with
      | none => .nothing
      | some e => e.descend rest

def putEntry (name : String) (e : Entry) : List (String × Entry) → List (String × Entry)
  | [] => [(name, e)]
  | (n, old) :: rest => if n = name then (n, e) :: rest else (n, old) :: putEntry name e rest

def Entry.put (new : Option Entry → Entry) : List String → Option Entry → Entry
  | [], old => new old
  | name :: rest, old =>
    let entries := match old with
      | some (folder entries) => entries
      | _ => []
    folder (putEntry name (Entry.put new rest (entries.lookup name)) entries)

structure Disk where
  workingDirectory : Path
  root : Entry

namespace Disk

def addFolder (d : Disk) (path : String) : Disk :=
  let keep : Option Entry → Entry := fun old =>
    match old with
    | some (.folder entries) => .folder entries
    | some .closed => .closed
    | _ => .folder []
  let parts := (Path.absolute d.workingDirectory path).parts
  { d with root := Entry.put keep parts (some d.root) }

def write (d : Disk) (path : String) (f : File) : Disk :=
  let parts := (Path.absolute d.workingDirectory path).parts
  { d with root := Entry.put (fun _ => .file f) parts (some d.root) }

def holding (workingDirectory : String) (contents : Entry) : Disk :=
  let here := Path.ofString workingDirectory
  ⟨here, Entry.put (fun _ => contents) here.parts none⟩

def blank (workingDirectory : String) : Disk :=
  holding workingDirectory (.folder [])

def absolute (d : Disk) (path : String) : String :=
  (Path.absolute d.workingDirectory path).render

/-- Follows the segments of a path from a folder. Every segment, also an empty one, asks for a
folder to start from. -/
def follow (d : Disk) (here : List String) : List String → Found
  | [] => d.root.descend here
  | s :: rest =>
    match d.root.descend here with
    | .entry (.folder _) =>
      if s = "" || s = "." then d.follow here rest
      else if s = ".." then d.follow here.dropLast rest
      else d.follow (here ++ [s]) rest
    | .entry (.file _) => .throughFile
    -- an empty segment only asks that there is a folder
    | .entry .closed => if s = "" then d.follow here rest else .denied
    | other => other

def locate (d : Disk) (text : String) : Found :=
  if text = "" then .nothing
  else if text.utf8ByteSize > maxPathSize then .tooLong
  else
    let start := if (Path.ofString text).isAbsolute then [] else d.workingDirectory.parts
    d.follow start (Text.splitText '/' text)

def find? (d : Disk) (text : String) : Option Entry :=
  match d.locate text with
  | .entry e => some e
  | _ => none

def isFile (d : Disk) (text : String) : Bool :=
  (d.find? text).any Entry.isFile

def isFolder (d : Disk) (text : String) : Bool :=
  (d.find? text).any Entry.isFolder

def open? (d : Disk) (p : Path) : Except ReadFault File :=
  let shown := p.render
  if shown.utf8ByteSize > maxPathSize then .error (.tooLong shown)
  else
    match d.root.descend p.parts with
    | .entry (.file f) => if f.readable then .ok f else .error (.denied shown)
    | .entry (.folder _) => .error (.isDirectory shown)
    | .entry .closed | .denied => .error (.denied shown)
    | .nothing => .error (.missing shown)
    | .throughFile => .error (.notDirectory shown)
    | .tooLong => .error (.tooLong shown)

end Disk

def unifyLineEnds : List Char → List Char
  | [] => []
  | '\r' :: '\n' :: cs => '\n' :: unifyLineEnds cs
  | '\r' :: cs => '\n' :: unifyLineEnds cs
  | c :: cs => c :: unifyLineEnds cs

def File.text (f : File) : Except ReadFault String :=
  match Text.Utf8.decode f.bytes with
  | .ok s => .ok (String.ofList (unifyLineEnds s.toList))
  | .error fault => .error (.undecodable fault)

def Parse.tree (p : Parse) (source : String) : Syntax.Tree :=
  Syntax.Tree.ofRows source p.hasError p.rows

end ContractCheck.Files
