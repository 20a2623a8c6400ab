import ContractCheck.Declaration.Basic
import ContractCheck.Syntax.Shape
import ContractCheck.Text.Name
import ContractCheck.TypeExpr.Parser

/-!
Reading the declarations of a source off its syntax tree. A program falls into namespace blocks;
the class-likes of a block share all imports of the block, wherever they stand in it.
-/
namespace ContractCheck.Declaration

open Syntax (Node)

def classKind? (kind : String) : Option ClassKind :=
  match kind with
  | "class_declaration" => some .cls
  | "interface_declaration" => some .interface
  | "trait_declaration" => some .trait
  | "enum_declaration" => some .enum
  | _ => none

def isContainer (kind : String) : Bool :=
  ["compound_statement", "if_statement", "else_clause", "else_if_clause"].contains kind

def isUse (n : Node) : Bool :=
  n.kind == "namespace_use_declaration"

structure Block where
  namespaceName : String
  statements : List Node

/-- Splits statements at the namespace definitions. One with braces is a block of its own, one
without applies to the statements after it. The name and the statements of the open block are
given. -/
def blocksFrom (name : String) (current : List Node) : List Node → List Block
  | [] => [⟨name, current⟩]
  | n :: rest =>
    if n.kind ≠ "namespace_definition" then blocksFrom name (current ++ [n]) rest
    else
      let inner := Text.trimBackslashes (((n.field? "name").map (·.text)).getD "")
      match n.field? "body" with
      | some body => ⟨inner, body.namedChildren⟩ :: blocksFrom name current rest
      | none => ⟨name, current⟩ :: blocksFrom inner [] rest

def blocks (root : Node) : List Block :=
  (blocksFrom "" [] root.namedChildren).filter (!·.statements.isEmpty)

mutual

def items : Node → List Node
  | .mk info children =>
    if info.kind == "namespace_use_declaration" || (classKind? info.kind).isSome then
      [.mk info children]
    else if isContainer info.kind then itemsIn children
    else []

def itemsIn : List Node → List Node
  | [] => []
  | n :: ns => (if n.info.named then items n else []) ++ itemsIn ns

end

def Block.imports (b : Block) : Imports :=
  ((b.statements.flatMap items).filter isUse).foldl
    (fun acc n => acc.update (Imports.parse n.text)) {}

def Block.classNodes (b : Block) : List Node :=
  (b.statements.flatMap items).filter (!isUse ·)

def clauseNames (clause : Node) : List String :=
  (clause.namedChildren.filter fun n => n.kind == "name" || n.kind == "qualified_name").map (·.text)

def withPrevious (before : Option Node) : List Node → List (Option Node × Node)
  | [] => []
  | n :: ns => (before, n) :: withPrevious (some n) ns

def docblock? (before : Option Node) : Option String :=
  match before with
  | some n => if n.isComment && n.text.startsWith "/**" then some n.text else none
  | none => none

def readParameter (n : Node) : Option Parameter :=
  if ["simple_parameter", "variadic_parameter", "property_promotion_parameter"].contains n.kind then
    let written := (((n.field? "name").map (·.text)).getD "").toList
    let name := (written.dropWhile fun c => c = '&' || c = '.').dropWhile (· = '$')
    some {
      name := String.ofList name
      type := ((n.field? "type").map fun t => TypeExpr.parse t.text).getD .absent
      variadic := n.kind == "variadic_parameter" }
  else none

def modifiers (n : Node) : List String :=
  (n.children.filter (·.kind.endsWith "_modifier")).map fun m => Text.lower m.text

def visibilityOf (modifiers : List String) : Visibility :=
  if modifiers.any (·.startsWith "private") then .privateAccess
  else if modifiers.any (·.startsWith "protected") then .protectedAccess
  else .publicAccess

def locate (path : String) (n : Node) : Location where
  path := path
  startLine := n.startLine
  endLine := n.endLine

/-- The return type of a method. A grammar that gives it no role has it right after the colon. -/
def returnType? (n : Node) : Option Node :=
  match n.field? "return_type" with
  | some t => some t
  | none =>
    let afterColon := n.children.dropWhile (·.kind != ":")
    (afterColon.find? fun c => c.kind != ":" && c.info.named && !c.isComment).filter
      (·.kind != "compound_statement")

def readMethod (path owner : String) (kind : ClassKind) (before : Option Node) (n : Node) : Method where
  owner := owner
  name := ((n.field? "name").map (·.text)).getD "<anonymous>"
  parameters := (((n.field? "parameters").map (·.namedChildren)).getD []).filterMap readParameter
  returnType := ((returnType? n).map fun t => TypeExpr.parse t.text).getD .absent
  doc := docblock? before
  location := locate path n
  visibility := visibilityOf (modifiers n)
  isAbstract := (modifiers n).contains "abstract" || kind = .interface
  isStatic := (modifiers n).contains "static"
  syntaxNode := some n

def qualify (namespaceName simple : String) : String :=
  if namespaceName = "" then simple else namespaceName ++ "\\" ++ simple

def saysAbstract (n : Node) : Bool :=
  n.kind != "base_clause" && n.kind != "class_interface_clause" &&
    (n.kind == "abstract_modifier" || Text.lower n.text == "abstract")

def parentRef? (kind : ClassKind) (n : Node) : Option String :=
  if kind = .interface then none
  else ((n.children.filter (·.kind == "base_clause")).filterMap fun c => (clauseNames c).head?).getLast?

def interfaceRefs (kind : ClassKind) (n : Node) : List String :=
  (n.children.filter fun c =>
    c.kind == "class_interface_clause" || (c.kind == "base_clause" && kind = .interface)).flatMap
      clauseNames

def readClass (path namespaceName : String) (imports : Imports) (n : Node) : Option ClassDecl := do
  let simple ← n.field? "name"
  let kind ← classKind? n.kind
  let name := qualify namespaceName simple.text
  let members := withPrevious none (((n.field? "body").map (·.namedChildren)).getD [])
  let methods := (members.filter (·.2.kind == "method_declaration")).map fun (before, m) =>
    readMethod path name kind before m
  return {
    name := name
    kind := kind
    namespaceName := namespaceName
    imports := imports
    methods := methods.foldl (fun acc m => acc.insertNew (Text.lower m.name) m) {}
    location := locate path n
    parentRef := parentRef? kind n
    interfaceRefs := interfaceRefs kind n
    traitRefs := (members.filter (·.2.kind == "use_declaration")).flatMap fun (_, m) =>
      traitNames m.text
    isAbstract := n.children.any saysAbstract }

def Block.classes (path : String) (b : Block) : List ClassDecl :=
  b.classNodes.filterMap (readClass path b.namespaceName b.imports)

def classesOf (path : String) (root : Node) : List ClassDecl :=
  (blocks root).flatMap (·.classes path)

def namespacesOf (root : Node) : List String :=
  ((blocks root).map (·.namespaceName)).filter (· ≠ "")

end ContractCheck.Declaration
