import ContractCheck.Registry.Basic

/-!
Which class-like a name stands for. An import comes before the current namespace, and that before
the global one; a name that nothing declares stands for itself.
-/
namespace ContractCheck.Registry

open Text

def importTarget? (scope : Scope) (name : String) : Option String :=
  ((scope.imports.entries.find? fun e => sameName e.1 name).map (·.2)).filter (· ≠ "")

def resolvePlain (r : Registry) (scope : Scope) (name : String) : String :=
  if name.toList.head? = some '\\' then dropBackslashes name
  else
    match cutFirst '\\' name.toList with
    | some (head, rest) =>
      match importTarget? scope (String.ofList head) with
      | some target => target ++ "\\" ++ String.ofList rest
      | none => name
    | none =>
      match importTarget? scope name with
      | some target => target
      | none =>
        let here :=
          if scope.namespaceName = "" then none else r.class? (scope.namespaceName ++ "\\" ++ name)
        match here.orElse fun _ => r.class? name with
        | some d => d.name
        | none => (Builtin.name? name).getD name

def resolve (r : Registry) (scope : Scope) (written : String) : String :=
  let name := dropBackslashes (trimText written)
  let lowered := lower name
  let ordinary :=
    if written.toList.head? = some '\\' then name else r.resolvePlain scope name
  if TypeExpr.isScalarName lowered then lowered
  else if lowered = "self" || lowered = "static" then scope.className.getD ordinary
  else if lowered = "parent" then
    match scope.parentRef with
    | some ref => r.resolvePlain scope ref
    | none => ordinary
  else ordinary

def lookup (r : Registry) (scope : Scope) (name : String) : Option ClassDecl :=
  r.class? (r.resolve scope name)

def parentTarget? (r : Registry) (d : ClassDecl) : Option String :=
  d.parentRef.map (r.resolve d.scope)

/-- The full name of the parent class. A name that resolves to nothing at all names no parent. -/
def parentOf (r : Registry) (d : ClassDecl) : Option String :=
  (r.parentTarget? d).filter (· ≠ "")

def supertypesOfKey (r : Registry) (key : String) : List String :=
  match r.classes.find? key with
  | none => Builtin.supertypesOfKey key
  | some d =>
    (r.parentOf d).toList ++ d.interfaceRefs.map (r.resolve d.scope) ++
      (if d.kind = .enum then ["UnitEnum"] else [])

def directSupertypes (r : Registry) (name : String) : List String :=
  r.supertypesOfKey (nameKey name)

end ContractCheck.Registry
