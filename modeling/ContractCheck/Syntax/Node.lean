/-!
Syntax trees of source texts. A tree is handed over as rows in pre-order, each with the number of
its children, and is kept as a rose tree.
-/
namespace ContractCheck.Syntax

/-- One node of a tree that is handed over in pre-order. The field is the role that the node has in
its parent, and empty for none. Offsets count the bytes of the source. -/
structure Row where
  kind : String
  named : Bool
  field : String
  start : Nat
  stop : Nat
  childCount : Nat
  missing : Bool := false

structure Info where
  kind : String
  named : Bool
  field : String
  text : String
  firstLine : Nat
  lastLine : Nat
  missing : Bool

inductive Node where
  | mk (info : Info) (children : List Node)

namespace Node

def info : Node → Info
  | mk info _ => info

def children : Node → List Node
  | mk _ children => children

def kind (n : Node) : String := n.info.kind

def text (n : Node) : String := n.info.text

def namedChildren (n : Node) : List Node :=
  n.children.filter (·.info.named)

def field? (n : Node) (role : String) : Option Node :=
  n.children.find? (·.info.field = role)

def startLine (n : Node) : Nat := n.info.firstLine + 1

def endLine (n : Node) : Nat := n.info.lastLine + 1

mutual

def size : Node → Nat
  | mk _ children => sizeAll children + 1

def sizeAll : List Node → Nat
  | [] => 0
  | n :: ns => n.size + sizeAll ns

end

theorem size_pos (n : Node) : 0 < n.size := by
  cases n
  simp [size]

theorem sizeAll_append (as bs : List Node) : sizeAll (as ++ bs) = sizeAll as + sizeAll bs := by
  induction as with
  | nil => simp [sizeAll]
  | cons a as ih => simp [sizeAll, ih, Nat.add_assoc]

theorem size_eq (n : Node) : n.size = sizeAll n.children + 1 := by
  cases n
  simp [size, children]

end Node

def lineFeedsBefore (bytes : ByteArray) : Array Nat :=
  bytes.foldl (fun acc b => acc.push (acc.back?.getD 0 + if b == 10 then 1 else 0)) #[0]

def Row.info (source : String) (lines : Array Nat) (row : Row) : Info where
  kind := row.kind
  named := row.named
  field := row.field
  text := String.Pos.Raw.extract source ⟨row.start⟩ ⟨row.stop⟩
  firstLine := lines.getD row.start 0
  lastLine := lines.getD row.stop 0
  missing := row.missing

def Row.push (source : String) (lines : Array Nat) (row : Row) (done : List Node) : List Node :=
  .mk (row.info source lines) (done.take row.childCount) :: done.drop row.childCount

structure Tree where
  hasError : Bool
  root : Option Node

/-- Builds the tree from its rows, last row first: the children of a row are then finished. -/
def Tree.ofRows (source : String) (hasError : Bool) (rows : List Row) : Tree where
  hasError := hasError
  root := (rows.foldr (Row.push source (lineFeedsBefore source.toUTF8)) []).head?

end ContractCheck.Syntax
