import ContractCheck.Rules.Segregation
import ContractCheck.Rules.Substitution
import ContractCheck.Proofs.Hierarchy.Alike

/-!
Traces and rules, too, see a registry only through what it looks up: over hierarchies that are alike
they give the same results and leave the same trail.
-/
namespace ContractCheck

namespace Registry.Alike

variable {r r' : Registry} (h : r.Alike r')

include h

theorem methodScope_eq : r.methodScope = r'.methodScope := by
  funext m context
  simp only [methodScope, h.class?_eq, h.parentOf_eq]

theorem announced_eq : r.announced = r'.announced := by
  funext m
  simp only [announced, announcedIn, h.methodScope_eq, h.resolve_eq]

theorem thrown_eq (f : Frame) (body : Syntax.Node) : f.thrown r body = f.thrown r' body := by
  have hthrownAt : Body.thrownAt r = Body.thrownAt r' := by
    funext scope place
    simp only [Body.thrownAt, h.resolve_eq]
  simp only [Frame.thrown, Frame.scope, h.methodScope_eq, hthrownAt]

omit h

mutual

theorem classNames_eq (h : r.Alike r') (scope : Scope) :
    (t : TypeExpr) → Body.classNames r scope t = Body.classNames r' scope t
  | .nullable inner => by rw [Body.classNames, Body.classNames, classNames_eq h scope inner]
  | .union members => by rw [Body.classNames, Body.classNames, classNamesAll_eq h scope members]
  | .named name => by rw [Body.classNames, Body.classNames, h.resolve_eq]
  | .absent | .self | .static | .parent | .intersection _ | .void | .mixed => by
    simp only [Body.classNames]

theorem classNamesAll_eq (h : r.Alike r') (scope : Scope) :
    (ts : List TypeExpr) → Body.classNamesAll r scope ts = Body.classNamesAll r' scope ts
  | [] => rfl
  | t :: ts => by
    rw [Body.classNamesAll, Body.classNamesAll, classNames_eq h scope t,
      classNamesAll_eq h scope ts]

end

include h

theorem variableClasses_eq : Body.variableClasses r = Body.variableClasses r' := by
  have hnewObject : Body.newObject? r = Body.newObject? r' := by
    funext scope n
    simp only [Body.newObject?, h.resolve_eq]
  funext scope parameters body
  simp only [Body.variableClasses, h.classNames_eq, hnewObject]

theorem calls_eq (f : Frame) (body : Syntax.Node) : f.calls r body = f.calls r' body := by
  have hcallsAt : Body.callsAt r = Body.callsAt r' := by
    funext scope context known place
    simp only [Body.callsAt, Body.memberCalls, Body.staticCalls, h.resolve_eq]
  simp only [Frame.calls, Frame.scope, h.methodScope_eq, h.variableClasses_eq, hcallsAt]

theorem contractOwner_eq (o : Override) : o.contractOwner r = o.contractOwner r' := by
  simp only [Override.contractOwner, h.class?_eq]

end Registry.Alike

namespace Hierarchy.Alike

variable {h h' : Hierarchy} (hh : h.Alike h')

include hh

theorem callee?_eq : h.callee? = h'.callee? := by
  have hcontext : h.calleeContext = h'.calleeContext := by
    funext context named
    simp only [calleeContext, hh.isDescendant_eq]
  funext caller edge
  simp only [callee?, hh.registry.class?_eq, hh.findMethod_eq, hcontext]

theorem analyze_eq (depth : Nat) (frame : Frame) (entered : Entered) :
    h.analyze depth frame entered = h'.analyze depth frame entered := by
  induction depth generalizing frame entered with
  | zero => rfl
  | succ depth ih =>
    have henter : h.analyze depth = h'.analyze depth := by
      funext frame entered
      exact ih frame entered
    have hfollow : h.follow (h.analyze depth) = h'.follow (h'.analyze depth) := by
      funext frame s edge
      simp only [follow, hh.callee?_eq, henter]
    simp only [analyze, hfollow, thrownHere, hh.registry.thrown_eq, hh.registry.calls_eq]

theorem trace_eq : h.trace = h'.trace := by
  have hdepth : h.maxDepth = h'.maxDepth := congrArg (· + 2) hh.registry.methods
  funext frame
  simp only [trace, hdepth, hh.analyze_eq]

theorem allows_eq : h.allows = h'.allows := by
  funext allowed exception
  simp only [allows, hh.isSubtype_eq]

theorem exceptionViolations_eq : h.exceptionViolations = h'.exceptionViolations := by
  funext o thrown
  simp only [exceptionViolations, hh.registry.announced_eq, hh.allows_eq]

theorem returnViolations_eq : h.returnViolations = h'.returnViolations := by
  funext o
  simp only [returnViolations, hh.typeSubtype_eq, hh.registry.contractOwner_eq]

theorem parameterViolations_eq : h.parameterViolations = h'.parameterViolations := by
  have hfrom : ∀ o position pairs,
      h.parameterViolationsFrom o position pairs = h'.parameterViolationsFrom o position pairs := by
    intro o position pairs
    induction pairs generalizing position with
    | nil => rfl
    | cons pair rest ih =>
      simp only [parameterViolationsFrom, hh.typeSubtype_eq, hh.registry.contractOwner_eq, ih]
  funext o
  simp only [parameterViolations, hfrom]

theorem contracts_eq : h.contracts = h'.contracts := by
  funext cls
  simp only [contracts, hh.interfacesOf_eq, hh.registry.parentOf_eq, hh.registry.class?_eq]

theorem implementedMethods_eq : h.implementedMethods = h'.implementedMethods := by
  funext cls interface
  simp only [implementedMethods, hh.registry.ownMethods_eq, hh.methodsOf_eq]

theorem stubViolations_eq : h.stubViolations = h'.stubViolations := by
  have hstub : h.stub? = h'.stub? := by
    funext m cls
    simp only [stub?, saysNotImplemented, hh.registry.class?_eq, hh.isSubtype_eq]
  funext cls interface
  simp only [stubViolations, hh.implementedMethods_eq, hstub]

theorem unfinishedViolations_eq : h.unfinishedViolations = h'.unfinishedViolations := by
  funext cls interface
  simp only [unfinishedViolations, hh.implementedMethods_eq]

theorem fatViolations_eq : h.fatViolations = h'.fatViolations := by
  funext threshold reported cls interface
  simp only [fatViolations, hh.methodsOf_eq]

end Hierarchy.Alike

end ContractCheck
