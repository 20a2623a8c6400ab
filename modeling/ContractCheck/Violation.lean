import ContractCheck.Text.Split
import ContractCheck.TypeExpr.Printer

/-!
What the checks find: broken contracts, and interfaces that ask too much of a class.
-/
namespace ContractCheck

open Text (joinWith)

inductive SubstitutionFault where
  | announces (exception : String)
  | throws (exception : String) (chains : List (List String))
  | returnType (own contract : TypeExpr)
  | parameterType (position : Nat) (name : String) (own contract : TypeExpr)

namespace SubstitutionFault

def reason : SubstitutionFault → String
  | announces exception =>
    "@throws " ++ exception ++ " declared in docblock but not allowed by the contract"
  | throws exception _ =>
    "throws " ++ exception ++ " in code (detected via AST) but not allowed by the contract"
  | returnType own contract =>
    "Return type " ++ own.render ++ " is not covariant with the contract return type " ++
      contract.render
  | parameterType position name own contract =>
    "Parameter #" ++ toString position ++ " ($" ++ name ++ ") type " ++ own.render ++
      " is narrower than the contract parameter type " ++ contract.render

def details : SubstitutionFault → Option String
  | throws _ chains =>
    match chains.filter (1 < ·.length) with
    | [] => none
    | indirect =>
      some ("Call chain: " ++
        joinWith "; " (indirect.map fun chain => joinWith " -> " (chain.map (· ++ "()"))))
  | _ => none

end SubstitutionFault

inductive Stub where
  | empty
  | throws (exception : String)
  | returnsNothing
  | returnsNull

def Stub.description : Stub → String
  | empty => "empty (no statements)"
  | throws exception => "a stub (throws " ++ exception ++ ")"
  | returnsNothing => "a stub (returns void/nothing)"
  | returnsNull => "a stub (returns null)"

inductive SegregationFault where
  | stub (method : String) (kind : Stub)
  | fat (methods : List String) (threshold : Int)
  | unfinished (method : String)

namespace SegregationFault

def reason : SegregationFault → String
  | stub method kind =>
    "Method " ++ method ++ "() is " ++ kind.description ++
      " — interface may be too wide for this class."
  | fat methods threshold =>
    "Interface has " ++ toString methods.length ++ " methods (threshold: " ++
      toString threshold ++ ") — consider splitting into smaller interfaces."
  | unfinished method =>
    "Method " ++ method ++
      "() appears to be an incomplete implementation (contains TODO/FIXME and trivial return)."

def details : SegregationFault → Option String
  | fat methods _ => some ("Methods: " ++ joinWith ", " methods)
  | _ => none

end SegregationFault

inductive Violation where
  | substitution (className method contract : String) (fault : SubstitutionFault)
  | segregation (className interface : String) (fault : SegregationFault)

namespace Violation

def reason : Violation → String
  | substitution _ _ _ fault => fault.reason
  | segregation _ _ fault => fault.reason

def details : Violation → Option String
  | substitution _ _ _ fault => fault.details
  | segregation _ _ fault => fault.details

def subject : Violation → String
  | substitution className method contract _ =>
    className ++ "::" ++ method ++ "() violates " ++ contract
  | segregation className interface _ => className ++ " -> " ++ interface

def render (v : Violation) : String :=
  v.subject ++ ": " ++ v.reason ++
    match v.details with
    | none => ""
    | some details => "\n          " ++ details

end Violation

end ContractCheck
