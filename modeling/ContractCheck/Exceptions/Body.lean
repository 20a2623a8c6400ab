import ContractCheck.Docblock
import ContractCheck.Hierarchy.Methods
import ContractCheck.Syntax.Shape
import ContractCheck.Syntax.Walk

/-!
What the body of a method throws by itself, and which calls in it have a callee that is known
without running the program.
-/
namespace ContractCheck

open Syntax (Node Cursor)

structure CallEdge where
  className : String
  method : String
  kind : CallKind
  line : Nat

def CallEdge.key (edge : CallEdge) : String × String :=
  (Text.lower edge.className, Text.lower edge.method)

def Registry.announcedIn (r : Registry) (scope : Scope) (doc : Option String) : List String :=
  Text.dedupe ((Docblock.thrownNames (doc.getD "")).map (r.resolve scope))

/-- The scope of a method's names: that of its owner. In a method of a trait, however, the class is
the one that the method is run on, if that is known. -/
def Registry.methodScope (r : Registry) (m : Method) (context : Option ClassDecl) : Scope :=
  match r.class? m.owner with
  | none => { className := some m.owner }
  | some owner =>
    match owner.kind, context with
    | .trait, some c =>
      { namespaceName := owner.namespaceName
        imports := owner.imports
        className := some c.name
        parentRef := (r.parentOf c).map ("\\" ++ ·) }
    | _, _ => owner.scope

def Registry.announced (r : Registry) (m : Method) : List String :=
  r.announcedIn (r.methodScope m none) m.doc

namespace Body

/-- Code inside these nodes does not run as part of the method around it. -/
def isNestedScope (kind : String) : Bool :=
  ["function_definition", "class_declaration", "interface_declaration", "trait_declaration",
    "enum_declaration", "declaration_list", "anonymous_class"].contains kind

def places (body : Node) : List Cursor :=
  Cursor.walk isNestedScope ⟨body, []⟩

def catchVariable (clause : Node) : Option String :=
  match clause.field? "name" with
  | some n => some n.text
  | none => (clause.namedChildren.find? (·.isVariable)).map (·.text)

def catchList (clause : Node) : String :=
  match clause.field? "type" with
  | some n => n.text
  | none =>
    let names := clause.namedChildren.filter fun n =>
      ["named_type", "name", "qualified_name"].contains n.kind
    "|".intercalate (names.map (·.text))

def catchTypes (clause : Node) : List String :=
  (Text.trimmedPieces '|' (catchList clause).toList).map String.ofList

/-- The exceptions that a throw is known to throw: a newly made one, or those that the innermost
clause around it caught under the thrown variable. -/
def thrownAt (r : Registry) (scope : Scope) (place : Cursor) : List String :=
  match place.node.thrown with
  | none => []
  | some e =>
    if e.isCreation then (e.createdClass.map (r.resolve scope)).toList
    else if e.isVariable then
      match place.above.find? fun n => n.kind == "catch_clause" && catchVariable n == some e.text with
      | some clause => (catchTypes clause).map (r.resolve scope)
      | none => []
    else []

mutual

def classNames (r : Registry) (scope : Scope) : TypeExpr → List String
  | .nullable inner => classNames r scope inner
  | .union members => classNamesAll r scope members
  | .self => scope.className.toList
  | .static => scope.className.toList
  | .named name => if TypeExpr.isScalarName (Text.lower name) then [] else [r.resolve scope name]
  | _ => []

def classNamesAll (r : Registry) (scope : Scope) : List TypeExpr → List String
  | [] => []
  | t :: ts => classNames r scope t ++ classNamesAll r scope ts

end

def newObject? (r : Registry) (scope : Scope) (n : Node) : Option (String × String) :=
  if n.kind != "assignment_expression" then none
  else do
    let left ← n.field? "left"
    let right ← (n.field? "right").bind Node.unwrap
    if left.isVariable && right.isCreation then
      return (left.text, r.resolve scope (← right.createdClass))
    else none

def variableClasses (r : Registry) (scope : Scope) (parameters : List Parameter) (body : Node) :
    Table String (List String) :=
  let ofParameters := parameters.foldl (fun acc p =>
    match classNames r scope p.type with
    | [] => acc
    | names => acc.set ("$" ++ p.name) names) {}
  ((places body).filterMap (newObject? r scope ·.node)).foldl (fun acc (target, name) =>
    let names := (acc.find? target).getD []
    acc.set target (if names.contains name then names else names ++ [name])) ofParameters

def memberCalls (r : Registry) (scope : Scope) (context : Option ClassDecl)
    (known : Table String (List String)) (n : Node) : List CallEdge :=
  match n.field? "name", (n.field? "object").bind Node.unwrap with
  | some name, some receiver =>
    if name.kind != "name" then []
    else if receiver.isVariable then
      if receiver.text = "$this" then
        ((context.map (·.name)).orElse fun _ => scope.className).toList.map
          fun owner => ⟨owner, name.text, .ownInstance, n.startLine⟩
      else
        ((known.find? receiver.text).getD []).map
          fun owner => ⟨owner, name.text, .typedVariable, n.startLine⟩
    else if receiver.isCreation then
      receiver.createdClass.toList.map
        fun created => ⟨r.resolve scope created, name.text, .newInstance, n.startLine⟩
    else []
  | _, _ => []

def staticCalls (r : Registry) (scope : Scope) (n : Node) : List CallEdge :=
  match n.field? "name", n.field? "scope" with
  | some name, some owner =>
    if name.kind = "name" && owner.isClassName then
      [⟨r.resolve scope owner.text, name.text, .static, n.startLine⟩]
    else []
  | _, _ => []

def callsAt (r : Registry) (scope : Scope) (context : Option ClassDecl)
    (known : Table String (List String)) (place : Cursor) : List CallEdge :=
  let n := place.node
  if n.isThrow then []
  else if n.kind == "member_call_expression" || n.kind == "nullsafe_member_call_expression" then
    memberCalls r scope context known n
  else if n.kind == "scoped_call_expression" then staticCalls r scope n
  else []

end Body

structure Frame where
  method : Method
  context : Option ClassDecl

namespace Frame

def scope (r : Registry) (f : Frame) : Scope :=
  r.methodScope f.method f.context

def thrown (r : Registry) (f : Frame) (body : Node) : List String :=
  ((Body.places body).filter (·.node.isThrow)).flatMap (Body.thrownAt r (f.scope r))

def calls (r : Registry) (f : Frame) (body : Node) : List CallEdge :=
  let scope := f.scope r
  let known := Body.variableClasses r scope f.method.parameters body
  (Body.places body).flatMap (Body.callsAt r scope f.context known)

end Frame

end ContractCheck
