import ContractCheck.Hierarchy.Methods
import ContractCheck.Syntax.Shape
import ContractCheck.Violation

/-!
The signs that an interface asks more of a class than the class has to give: methods that do
nothing, methods that were left unfinished, and interfaces with too many methods.
-/
namespace ContractCheck

open Syntax (Node)

namespace Hierarchy

def implementedMethods (h : Hierarchy) (cls interface : ClassDecl) : TracedOrCycle (List Method) := do
  let own ← h.registry.ownMethods cls
  let asked ← h.methodsOf interface
  return (asked.filterMap fun m => own.find? (Text.lower m.name)).filter fun m =>
    !m.isAbstract && m.body.isSome

def returnedText (statement : Node) : String :=
  match statement.parts with
  | [] => ""
  | value :: _ => Text.lower (String.ofList (value.text.toList.filter (!Text.isSpace ·)))

def notImplemented : String := "BadMethodCallException"

def saysNotImplemented (h : Hierarchy) (m : Method) (cls : ClassDecl) (written : String) :
    Traced Bool :=
  let short := Text.lastSegment (Text.dropBackslashes written)
  if Text.sameName short notImplemented then pure true
  else
    let owner := (h.registry.class? m.owner).getD cls
    h.isSubtype owner.scope written ["\\" ++ notImplemented]

def stub? (h : Hierarchy) (m : Method) (cls : ClassDecl) : Traced (Option Stub) := do
  match Node.statements m.body with
  | [] => return some .empty
  | [statement] =>
    let created := (statement.thrown.filter (·.isCreation)).bind (·.createdClass)
    let marked ← match created with
      | some name => h.saysNotImplemented m cls name
      | none => pure false
    if marked then
      return some (.throws (Text.lastSegment (Text.dropBackslashes (created.getD ""))))
    else if statement.kind = "return_statement" then
      match returnedText statement with
      | "" => return some .returnsNothing
      | "null" => return some .returnsNull
      | _ => return none
    else return none
  | _ => return none

def unfinishedMarkers : List String :=
  ["todo", "fixme", "xxx", "hack", "implement "]

def hasUnfinishedMarker (m : Method) : Bool :=
  let source := (Text.lower m.sourceText).toList
  unfinishedMarkers.any (Text.occursIn · source)

def returnsTrivially (m : Method) : Bool :=
  match Node.statements m.body with
  | [statement] =>
    statement.kind = "return_statement" &&
      ["", "true", "false", "null", "[]", "array()", "0", "1"].contains (returnedText statement)
  | _ => false

def stubViolations (h : Hierarchy) (cls interface : ClassDecl) : TracedOrCycle (List Violation) := do
  let methods ← h.implementedMethods cls interface
  let found ← methods.mapM fun m => do
    return (← h.stub? m cls).map fun kind =>
      Violation.segregation cls.name interface.name (.stub m.name kind)
  return found.filterMap id

def unfinishedViolations (h : Hierarchy) (cls interface : ClassDecl) :
    TracedOrCycle (List Violation) := do
  let methods ← h.implementedMethods cls interface
  return (methods.filter fun m => hasUnfinishedMarker m && returnsTrivially m).map fun m =>
    .segregation cls.name interface.name (.unfinished m.name)

/-- An interface with more methods than the threshold. It is reported for the first class only: the
interfaces reported before are given by their lower-cased names and come back with this one. -/
def fatViolations (h : Hierarchy) (threshold : Int) (reported : List String)
    (cls interface : ClassDecl) : TracedOrCycle (List Violation × List String) := do
  let key := Text.lower interface.name
  if key ∈ reported then return ([], reported)
  else
    let methods ← h.methodsOf interface
    if methods.length ≤ threshold then return ([], reported)
    else
      Traced.report (.fatInterface interface.name methods.length threshold)
      return ([.segregation cls.name interface.name (.fat (methods.map (·.name)) threshold)],
        key :: reported)

end Hierarchy

end ContractCheck
