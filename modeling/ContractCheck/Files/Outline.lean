import ContractCheck.Files.Disk
import ContractCheck.Text.Integer

/-!
Outlines: the text form in which parsers hand over what they make of a file. An outline has one
line for each node, in pre-order, and tabs divide the parts of a line.
-/
namespace ContractCheck.Files.Outline

open Settings (Document Value)

def linesOf (text : String) : List (List String) :=
  ((Text.splitText '\n' text).filter (· ≠ "")).map (Text.splitText '\t')

/-- A node of a tree: its kind, its role, its offsets and the number of its children. The marks
`named` and `missing` follow where they hold. -/
def row? : List String → Option Syntax.Row
  | kind :: field :: start :: stop :: count :: marks => do
    let start ← start.toNat?
    let stop ← stop.toNat?
    let childCount ← count.toNat?
    let named := marks.contains "named"
    return { kind, named, field, start, stop, childCount, missing := marks.contains "missing" }
  | _ => none

/-- The tree of a source. The line `error` in front says that the source has errors. -/
def parse? (text : String) : Option Parse :=
  match linesOf text with
  | ["error"] :: lines => (lines.mapM row?).map (⟨true, ·⟩)
  | lines => (lines.mapM row?).map (⟨false, ·⟩)

def push : List String → List Value → Option (List Value)
  | ["null"], done => some (.null :: done)
  | ["true"], done => some (.bool true :: done)
  | ["false"], done => some (.bool false :: done)
  | ["integer", n], done => (Text.readInteger n).toOption.map (.int · :: done)
  | ["decimal", digits, places], done => do
    let digits ← (Text.readInteger digits).toOption
    let places ← places.toNat?
    return .decimal ⟨digits, places⟩ :: done
  | ["unbounded"], done => some (.unbounded :: done)
  | ["text", s], done => some (.text s :: done)
  | ["list", n], done => n.toNat?.map fun n => .list (done.take n) :: done.drop n
  | "mapping" :: keys, done => some (.mapping (keys.zip done) :: done.drop keys.length)
  | ["mixed"], done => some (.mixedMapping :: done)
  | ["other"], done => some (.other :: done)
  | _, _ => none

def document (text : String) : Document :=
  match (linesOf text).foldrM push [] with
  | some [v] => .value v
  | _ => .invalid

end ContractCheck.Files.Outline
