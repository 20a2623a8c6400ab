import ContractCheck.Files.Path
import ContractCheck.Settings.Value
import ContractCheck.Text.Integer

/-!
Settings: which files are analysed, and from how many methods on an interface is fat.
-/
namespace ContractCheck

structure Settings where
  directories : List String := []
  excludedDirectories : List String := []
  files : List String := []
  excludedFiles : List String := []
  threshold : Option Int := none

namespace Settings

inductive Problem where
  | notList
  | notText
  | notPositive
  | notInteger
  | fraction
  | notFinite
  | tooLarge
  | notNumber
deriving DecidableEq

structure FieldFault where
  field : String
  index : Option Nat
  problem : Problem

def itemFaults (field : String) (items : List Value) : List FieldFault :=
  items.zipIdx.filterMap fun (v, i) =>
    match v with
    | .text _ => none
    | _ => some ⟨field, some i, .notText⟩

def readTexts (field : String) : Option Value → Except (List FieldFault) (List String)
  | none => .ok []
  | some (.list items) =>
    match itemFaults field items with
    | [] => .ok (items.filterMap fun v => match v with
      | .text s => some s
      | _ => none)
    | faults => .error faults
  | some _ => .error [⟨field, none, .notList⟩]

/-- The integer that a value stands for. A decimal has to lie between the bounds of a signed word of
64 bits. -/
def readInt : Value → Except Problem Int
  | .bool b => .ok (if b then 1 else 0)
  | .int n => .ok n
  | .decimal d =>
    match d.whole? with
    | some n => if n.natAbs < 1 <<< 63 then .ok n else .error .tooLarge
    | none => .error .fraction
  | .unbounded => .error .notFinite
  | .text s =>
    match Text.readInteger s with
    | .ok n => .ok n
    | .error .malformed => .error .notInteger
    | .error .tooLong => .error .tooLarge
  | _ => .error .notNumber

def readThreshold (field : String) : Option Value → Except (List FieldFault) (Option Int)
  | none => .ok none
  | some .null => .ok none
  | some v =>
    match readInt v with
    | .error problem => .error [⟨field, none, problem⟩]
    | .ok n => if n < 1 then .error [⟨field, none, .notPositive⟩] else .ok (some n)

def faultsOf {α : Type} : Except (List FieldFault) α → List FieldFault
  | .ok _ => []
  | .error faults => faults

def ofEntries (entries : List (String × Value)) : Except (List FieldFault) Settings :=
  let directories := readTexts "directories" (entries.lookup "directories")
  let excludedDirectories :=
    readTexts "exclude_directories" (entries.lookup "exclude_directories")
  let files := readTexts "files" (entries.lookup "files")
  let excludedFiles := readTexts "exclude_files" (entries.lookup "exclude_files")
  let threshold := readThreshold "isp_threshold" (entries.lookup "isp_threshold")
  match directories, excludedDirectories, files, excludedFiles, threshold with
  | .ok directories, .ok excludedDirectories, .ok files, .ok excludedFiles, .ok threshold =>
    .ok { directories, excludedDirectories, files, excludedFiles, threshold }
  | _, _, _, _, _ =>
    .error (faultsOf directories ++ faultsOf excludedDirectories ++ faultsOf files ++
      faultsOf excludedFiles ++ faultsOf threshold)

def addDirectory (s : Settings) (path : String) : Settings :=
  { s with directories := s.directories ++ [path] }

def anchor (base : Files.Path) (path : String) : String :=
  let p := Files.Path.ofString path
  if p.isAbsolute then path else (base.under p).render

def anchored (s : Settings) (base : Files.Path) : Settings :=
  { s with
    directories := s.directories.map (anchor base)
    excludedDirectories := s.excludedDirectories.map (anchor base)
    files := s.files.map (anchor base)
    excludedFiles := s.excludedFiles.map (anchor base) }

end Settings

end ContractCheck
