import ContractCheck.Hierarchy.Basic

/-!
Subtyping of declared types. Each type is first made canonical in the scope it is written in.
-/
namespace ContractCheck

namespace Registry

mutual

/-- Resolves all names of a type. Both `self` and `static` become the class of the scope, `parent`
its parent class, and a nullable type a union with `null`. -/
def canonicalize (r : Registry) (scope : Scope) : TypeExpr → TypeExpr
  | .absent => .absent
  | .named name => .named (r.resolve scope name)
  | .self => (scope.className.map TypeExpr.named).getD .self
  | .static => (scope.className.map TypeExpr.named).getD .static
  | .parent =>
    match scope.parentRef with
    | some ref => .named (r.resolvePlain scope ref)
    | none => .parent
  | .nullable inner => .union [r.canonicalize scope inner, .named "null"]
  | .union members => .union (r.canonicalizeAll scope members)
  | .intersection members => .intersection (r.canonicalizeAll scope members)
  | .void => .void
  | .mixed => .mixed

def canonicalizeAll (r : Registry) (scope : Scope) : List TypeExpr → List TypeExpr
  | [] => []
  | t :: ts => r.canonicalize scope t :: r.canonicalizeAll scope ts

end

end Registry

namespace Hierarchy

open Text

/-- Subtyping of two names. A name that nothing declares is only a subtype of itself. -/
def namedSubtype (h : Hierarchy) (candidate target : String) : Traced Bool :=
  let c := lower candidate
  let t := lower target
  if c = t then pure true
  else if TypeExpr.isScalarName c then
    if t = "bool" then pure (c = "true" || c = "false")
    else if t = "iterable" then pure (c = "array")
    else pure false
  else if !h.registry.isKnown candidate then do
    Traced.report (.unknownSubtype candidate target)
    return false
  else if t = "object" then pure true
  else if t = "iterable" then h.isDescendant candidate "Traversable"
  else if t = "callable" then h.isDescendant candidate "Closure"
  else if TypeExpr.isScalarName t then pure false
  else h.isDescendant candidate target

mutual

def subtype (h : Hierarchy) (c t : TypeExpr) : Traced Bool :=
  if c = t then pure true
  else
    match c with
    | .union members => h.everySubtype members t
    | c =>
      if c = .named "never" then pure true
      else if t = .mixed then pure (c ≠ .void)
      else if c = .void ∨ c = .mixed ∨ t = .void then pure false
      else
        match t with
        | .union members => h.subtypeOfSome c members
        | .intersection members => h.subtypeOfEvery c members
        | t =>
          match c, t with
          | .intersection members, t => h.someSubtype members t
          | .named a, .named b => h.namedSubtype a b
          | _, _ => pure false
termination_by sizeOf c + sizeOf t

def everySubtype (h : Hierarchy) (cs : List TypeExpr) (t : TypeExpr) : Traced Bool :=
  match cs with
  | [] => pure true
  | c :: cs => do
    if ← h.subtype c t then h.everySubtype cs t else return false
termination_by sizeOf cs + sizeOf t

def someSubtype (h : Hierarchy) (cs : List TypeExpr) (t : TypeExpr) : Traced Bool :=
  match cs with
  | [] => pure false
  | c :: cs => do
    if ← h.subtype c t then return true else h.someSubtype cs t
termination_by sizeOf cs + sizeOf t

def subtypeOfSome (h : Hierarchy) (c : TypeExpr) (ts : List TypeExpr) : Traced Bool :=
  match ts with
  | [] => pure false
  | t :: ts => do
    if ← h.subtype c t then return true else h.subtypeOfSome c ts
termination_by sizeOf c + sizeOf ts

def subtypeOfEvery (h : Hierarchy) (c : TypeExpr) (ts : List TypeExpr) : Traced Bool :=
  match ts with
  | [] => pure true
  | t :: ts => do
    if ← h.subtype c t then h.subtypeOfEvery c ts else return false
termination_by sizeOf c + sizeOf ts

end

def typeSubtype (h : Hierarchy) (candidate : TypeExpr) (candidateScope : Scope)
    (target : TypeExpr) (targetScope : Scope) : Traced Bool :=
  h.subtype (h.registry.canonicalize candidateScope candidate)
    (h.registry.canonicalize targetScope target)

end Hierarchy

end ContractCheck
