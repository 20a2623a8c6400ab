import ContractCheck.Exceptions.Trace
import ContractCheck.Hierarchy.Subtype
import ContractCheck.Violation

/-!
The rules that a method must keep to stand in for the method of its contract: it throws nothing
that the contract does not announce, its return type is no wider and its parameters no narrower.
-/
namespace ContractCheck

structure Override where
  method : Method
  contractMethod : Method
  cls : ClassDecl
  contract : ClassDecl

namespace Override

/-- Whether the signature of the contract method binds: not if it is private, and that of a
constructor only if it is abstract or stands in an interface. -/
def binds (contractMethod : Method) (contract : ClassDecl) : Bool :=
  if contractMethod.visibility = .privateAccess then false
  else if Text.lower contractMethod.name = "__construct" then
    contract.isInterface || contractMethod.isAbstract
  else true

def violation (o : Override) (fault : SubstitutionFault) : Violation :=
  .substitution o.cls.name o.method.name o.contract.name fault

def contractOwner (r : Registry) (o : Override) : ClassDecl :=
  (r.class? o.contractMethod.owner).getD o.contract

end Override

namespace Hierarchy

def allows (h : Hierarchy) (allowed : List String) (exception : String) : Traced Bool :=
  if allowed.isEmpty then pure false
  else h.isSubtype {} ("\\" ++ exception) (allowed.map ("\\" ++ ·))

def exceptionViolations (h : Hierarchy) (o : Override) (thrown : Trace) :
    Traced (List Violation) := do
  let allowed := h.registry.announced o.contractMethod
  let announced ← (h.registry.announced o.method).filterM fun e => do
    return !(← h.allows allowed e)
  let escaping ← thrown.entries.filterM fun e => do
    return !(← h.allows allowed e.1)
  let violations := announced.map (fun e => o.violation (.announces e)) ++
    escaping.map fun (e, chains) => o.violation (.throws e chains)
  if !violations.isEmpty then
    Traced.report (.exceptionViolations o.cls.name o.method.name violations.length)
  return violations

def returnViolations (h : Hierarchy) (o : Override) : Traced (List Violation) := do
  let own := o.method.returnType
  let expected := o.contractMethod.returnType
  if !Override.binds o.contractMethod o.contract || own = .absent || expected = .absent then
    return []
  else if ← h.typeSubtype own o.cls.scope expected (o.contractOwner h.registry).scope then
    return []
  else
    return [o.violation (.returnType own expected)]

def parameterViolationsFrom (h : Hierarchy) (o : Override) (position : Nat) :
    List (Parameter × Parameter) → Traced (List Violation)
  | [] => pure []
  | (own, expected) :: rest => do
    let fits ←
      if own.type = .absent || expected.type = .absent then pure true
      else h.typeSubtype expected.type (o.contractOwner h.registry).scope own.type o.cls.scope
    let more ← h.parameterViolationsFrom o (position + 1) rest
    if fits then return more
    else
      return o.violation (.parameterType position own.name own.type expected.type) :: more

def parameterViolations (h : Hierarchy) (o : Override) : Traced (List Violation) :=
  if Override.binds o.contractMethod o.contract then
    h.parameterViolationsFrom o 1 (o.method.parameters.zip o.contractMethod.parameters)
  else pure []

def contracts (h : Hierarchy) (cls : ClassDecl) : Traced (List ClassDecl) := do
  let interfaces ← h.interfacesOf cls
  return interfaces ++ ((h.registry.parentOf cls).bind h.registry.class?).toList

end Hierarchy

end ContractCheck
