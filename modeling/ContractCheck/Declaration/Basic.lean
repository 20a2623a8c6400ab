import ContractCheck.Declaration.Import
import ContractCheck.Syntax.Node
import ContractCheck.TypeExpr.Basic

/-!
Class-likes and their methods, as they are declared.
-/
namespace ContractCheck

inductive ClassKind where
  | cls
  | interface
  | trait
  | enum
deriving DecidableEq

def ClassKind.label : ClassKind → String
  | .cls => "class"
  | .interface => "interface"
  | .trait => "trait"
  | .enum => "enum"

inductive Visibility where
  | privateAccess
  | protectedAccess
  | publicAccess
deriving DecidableEq

def Visibility.label : Visibility → String
  | .privateAccess => "private"
  | .protectedAccess => "protected"
  | .publicAccess => "public"

structure Location where
  path : String
  startLine : Nat
  endLine : Nat

/-- What is needed to resolve a name. The namespace is empty for the global one. -/
structure Scope where
  namespaceName : String := ""
  imports : Imports := {}
  className : Option String := none
  parentRef : Option String := none

structure Parameter where
  name : String
  type : TypeExpr
  variadic : Bool := false

structure Method where
  owner : String
  name : String
  parameters : List Parameter := []
  returnType : TypeExpr := .absent
  doc : Option String := none
  location : Location
  visibility : Visibility := .publicAccess
  isAbstract : Bool := false
  isStatic : Bool := false
  syntaxNode : Option Syntax.Node := none

namespace Method

def body (m : Method) : Option Syntax.Node :=
  m.syntaxNode.bind (·.field? "body")

def qualifiedName (m : Method) : String :=
  m.owner ++ "::" ++ m.name

def sourceText (m : Method) : String :=
  (m.syntaxNode.map (·.text)).getD ""

end Method

abbrev MethodTable := Table String Method

structure ClassDecl where
  name : String
  kind : ClassKind
  namespaceName : String := ""
  imports : Imports := {}
  methods : MethodTable := {}
  location : Location
  parentRef : Option String := none
  interfaceRefs : List String := []
  traitRefs : List String := []
  isAbstract : Bool := false

namespace ClassDecl

def isInterface (d : ClassDecl) : Bool :=
  d.kind = .interface

def scope (d : ClassDecl) : Scope where
  namespaceName := d.namespaceName
  imports := d.imports
  className := some d.name
  parentRef := d.parentRef

def method? (d : ClassDecl) (name : String) : Option Method :=
  d.methods.find? (Text.lower name)

end ClassDecl

end ContractCheck
