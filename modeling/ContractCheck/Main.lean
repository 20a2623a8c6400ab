import ContractCheck.CommandLine.Execute
import ContractCheck.Files.Outline

/-!
The program: it checks the PHP files below the working directory. Beside a source stands the outline
of its tree, named like it with `.tree` behind, and beside a settings file the outline of its
document, with `.document` behind.
-/
namespace ContractCheck

open Files

def readText? (path : String) : IO (Option String) := do
  try
    return some (← IO.FS.readFile path)
  catch _ => return none

/-- Reads a file and what parsers made of it. A source without an outline counts as one with
errors. -/
def readEntry (path : String) : IO File := do
  let bytes ← try IO.FS.readBinFile path catch _ => return { readable := false }
  let tree ← readText? (path ++ ".tree")
  let document ← readText? (path ++ ".document")
  return {
    bytes := bytes.toList
    parse := (tree.bind Outline.parse?).getD { hasError := true }
    document := (document.map Outline.document).getD .invalid }

/-- Reads a folder with all that is in it, links left out. -/
partial def readFolder (path : String) : IO Entry := do
  let here ← IO.FS.realPath path
  let found ← try here.readDir catch _ => return .closed
  let mut entries := []
  for e in found do
    let inner := path ++ "/" ++ e.fileName
    match (← e.path.symlinkMetadata).type with
    | .dir => entries := (e.fileName, ← readFolder inner) :: entries
    | .file => entries := (e.fileName, .file (← readEntry inner)) :: entries
    | _ => pure ()
  return .folder entries

def readDisk : IO Disk := do
  let here := (← IO.currentDir).toString
  return Disk.holding here (← readFolder here)

end ContractCheck

open ContractCheck CommandLine in
def main (args : List String) : IO UInt32 := do
  match Command.parse args with
  | .error fault =>
    IO.eprintln ("Error: " ++ fault.message)
    return 2
  | .ok .help =>
    IO.println usage
    return 0
  | .ok (.check request) =>
    let ending := request.execute (← readDisk)
    for line in Notice.lines request.level ending.notices do IO.eprintln line
    for line in ending.output do IO.println line
    for line in ending.errors do IO.eprintln line
    if let some crash := ending.crash then IO.eprintln crash.message
    return ending.exitCode.toUInt32
