import ContractCheck.Session.Basic

/-!
The checks of one class: against its contracts, and against the interfaces it implements.
-/
namespace ContractCheck.Work

def load (name : String) : Attempt ClassDecl := do
  match (← get).registry.class? name with
  | some d => return d
  | none => throw (.unknownClass name)

/-- The methods of a contract that a class defines itself, each beside its own one. A method that
both have from the same class-like cannot deviate. -/
def overrides (cls contract : ClassDecl) (own : MethodTable) (asked : List Method) : List Override :=
  asked.filterMap fun expected => do
    let method ← own.find? (Text.lower expected.name)
    if Text.sameName method.owner expected.owner then none
    else some ⟨method, expected, cls, contract⟩

def applySubstitution (o : Override) : SubstitutionRule × Nat → Work (List Violation)
  | (rule, place) => do
    let m := (← get).substitution.memory
    match rule with
    | .exceptions =>
      let thrown ← trace m (m.analyst place) o.method (some o.cls)
      ask m (·.exceptionViolations o thrown)
    | .returnType => ask m (·.returnViolations o)
    | .parameterTypes => ask m (·.parameterViolations o)

def checkContract (cls : ClassDecl) (own : MethodTable) (contract : ClassDecl) :
    Attempt (List Violation) := do
  let asked ← attempt .session (·.methodsOf contract)
  let rules := (← get).substitution.rules.zipIdx
  gather (fun o => gather (fun rule => liftM (applySubstitution o rule)) rules)
    (overrides cls contract own asked)

def checkSubstitution (name : String) : Attempt (List Violation) := do
  let cls ← load name
  let own ← attempt .session (·.registry.ownMethods cls)
  let contracts ← liftM (ask .session (·.contracts cls))
  let violations ← gather (checkContract cls own) contracts
  report (.substitutionChecked cls.name violations.length)
  return violations

def applySegregation (cls interface : ClassDecl) : SegregationRule × Nat → Attempt (List Violation)
  | (rule, place) => do
    let s ← get
    let m := s.segregation.memory
    match rule with
    | .stubs => attempt m (·.stubViolations cls interface)
    | .unfinished => attempt m (·.unfinishedViolations cls interface)
    | .fatInterface =>
      let before := (s.reported.find? place).getD []
      let (violations, reported) ← attempt m (·.fatViolations s.threshold before cls interface)
      modify fun s => { s with reported := s.reported.set place reported }
      return violations

def checkSegregation (name : String) : Attempt (List Violation) := do
  let cls ← load name
  let interfaces ← liftM (ask .session (·.interfacesOf cls))
  let rules := (← get).segregation.rules.zipIdx
  let violations ← gather (fun i => gather (applySegregation cls i) rules) interfaces
  report (.segregationChecked cls.name violations.length)
  return violations

end ContractCheck.Work
