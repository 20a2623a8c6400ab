import ContractCheck.Proofs.Registry.Indexed

/-!
Small programs, written as trees. General statements are tried out on them.
-/
namespace ContractCheck.Sample

open Syntax (Node)

def node (kind role text : String) (children : List Node) : Node :=
  .mk ⟨kind, true, role, text, 0, 0, false⟩ children

def throwNew (name : String) : Node :=
  node "throw_expression" "" "" [node "object_creation_expression" "" "" [node "name" "" name []]]

def callOnThis (method : String) : Node :=
  node "member_call_expression" "" ""
    [node "variable_name" "object" "$this" [], node "name" "name" method []]

def callOnNew (name method : String) : Node :=
  node "member_call_expression" "" ""
    [node "parenthesized_expression" "object" ""
      [node "object_creation_expression" "" "" [node "name" "" name []]],
      node "name" "name" method []]

def callOnClass (name method : String) : Node :=
  node "scoped_call_expression" "" "" [node "name" "scope" name [], node "name" "name" method []]

def method (name : String) (statements : List Node) : Node :=
  node "method_declaration" "" ""
    [node "name" "name" name [], node "compound_statement" "body" "" statements]

def announcement (name : String) : Node :=
  node "method_declaration" "" "" [node "name" "name" name []]

def docblock (text : String) : Node :=
  node "comment" "" text []

def use (text : String) : Node :=
  node "use_declaration" "" text []

def classLike (kind name : String) (parents interfaces : List String) (members : List Node) : Node :=
  node kind "" "" [node "name" "name" name [],
    node "base_clause" "" "" (parents.map fun p => node "name" "" p []),
    node "class_interface_clause" "" "" (interfaces.map fun i => node "name" "" i []),
    node "declaration_list" "body" "" members]

def program (declarations : List Node) : Node :=
  node "program" "" "" declarations

def emptyDisk : Files.Disk := ⟨⟨"/", []⟩, .folder []⟩

def registry (declarations : List Node) : Registry :=
  (Registry.indexTree {} "sample.php" ⟨false, some (program declarations)⟩).registry

theorem indexed_registry (declarations : List Node) : (registry declarations).Indexed :=
  .source .empty "sample.php" ⟨false, some (program declarations)⟩

mutual

def print : Node → String
  | .mk info children => info.text ++ printAll children

def printAll : List Node → String
  | [] => ""
  | n :: ns => print n ++ printAll ns

end

mutual

def rows (start : Nat) : Node → List Syntax.Row
  | .mk info children =>
    let stop := start + (info.text ++ printAll children).utf8ByteSize
    ⟨info.kind, info.named, info.field, start, stop, children.length, info.missing⟩ ::
      rowsAll (start + info.text.utf8ByteSize) children

def rowsAll (start : Nat) : List Node → List Syntax.Row
  | [] => []
  | n :: ns => rows start n ++ rowsAll (start + (print n).utf8ByteSize) ns

end

end ContractCheck.Sample
