import ContractCheck.Syntax.Node

/-!
The shapes of PHP code that the analyses look for.
-/
namespace ContractCheck.Syntax.Node

def isComment (n : Node) : Bool :=
  n.kind == "comment"

def parts (n : Node) : List Node :=
  n.namedChildren.filter (!·.isComment)

def statements : Option Node → List Node
  | none => []
  | some block => block.parts

mutual

def unwrap : Node → Option Node
  | mk info children =>
    if info.kind == "parenthesized_expression" then unwrapFirst children else some (mk info children)

def unwrapFirst : List Node → Option Node
  | [] => none
  | n :: ns => if n.info.named && !n.isComment then unwrap n else unwrapFirst ns

end

def isThrow (n : Node) : Bool :=
  n.kind == "throw_expression" || n.kind == "throw_statement"

def isClassName (n : Node) : Bool :=
  n.kind == "name" || n.kind == "qualified_name" || n.kind == "relative_scope"

def isCreation (n : Node) : Bool :=
  n.kind == "object_creation_expression"

def isVariable (n : Node) : Bool :=
  n.kind == "variable_name"

def createdClass (n : Node) : Option String :=
  match n.parts with
  | first :: _ => if first.isClassName then some first.text else none
  | [] => none

def thrown (n : Node) : Option Node :=
  let n := if n.kind == "expression_statement" then n.parts.head?.getD n else n
  if n.isThrow then n.parts.head?.bind unwrap else none

end ContractCheck.Syntax.Node
