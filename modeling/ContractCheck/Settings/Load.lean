import ContractCheck.Files.Disk
import ContractCheck.Notice
import ContractCheck.Settings.Basic

/-!
Loading settings from a file. Relative paths in them are seen from the directory of the file.
-/
namespace ContractCheck.Settings

inductive LoadFault where
  | missing (path : String)
  | unreadable (path : String)
  | notMapping (path : String)
  | invalid (path : String) (faults : List FieldFault)
  | undecodable (fault : Text.Utf8.Fault)
  | keyNotText
  | nameTooLong (path : String)
  | denied (path : String)

def LoadFault.message : LoadFault → String
  | .missing path => "Config file '" ++ path ++ "' not found or not readable."
  | .unreadable path => "Failed to read YAML config: " ++ path
  | .notMapping path => "Top-level YAML must be a mapping (dict): " ++ path
  | .invalid path _ => "Invalid config file '" ++ path ++ "'"
  | .undecodable fault => fault.message
  | .keyNotText => ""
  | .nameTooLong path => (Files.ReadFault.tooLong path).message
  | .denied path => (Files.ReadFault.denied path).message

def Value.isVoid : Value → Bool
  | .null => true
  | .bool b => !b
  | .int n => n = 0
  | .decimal d => d.digits = 0
  | .text s => s = ""
  | .list items => items.isEmpty
  | .mapping entries => entries.isEmpty
  | _ => false

def ofValue (path : String) (v : Value) : Except LoadFault Settings :=
  if v.isVoid then .ok {}
  else
    match v with
    | .mapping entries =>
      match ofEntries entries with
      | .ok s => .ok s
      | .error faults => .error (.invalid path faults)
    | .mixedMapping => .error .keyNotText
    | _ => .error (.notMapping path)

/-- The settings that a file describes, as they are written in it. An error of the document that is
met first hides bytes that are no text. -/
def ofFile (path : String) (f : Files.File) : Except LoadFault Settings :=
  if !f.readable then .error (.unreadable path)
  else
    match f.document with
    | .invalid => .error (.unreadable path)
    | .value v =>
      match Text.Utf8.decodeStream f.bytes with
      | .error fault => .error (.undecodable fault)
      | .ok _ => ofValue path v

def load (disk : Files.Disk) (path : Files.Path) : Except LoadFault Settings × List Notice :=
  let shown := path.render
  match disk.locate shown with
  | .tooLong => (.error (.nameTooLong shown), [])
  | .denied => (.error (.denied shown), [])
  | .entry (.file f) =>
    match ofFile shown f with
    | .ok s =>
      (.ok (s.anchored path.parent),
        [.settingsLoaded shown s.directories.length s.files.length])
    | .error fault => (.error fault, [])
  | _ => (.error (.missing shown), [])

end ContractCheck.Settings
