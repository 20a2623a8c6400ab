import ContractCheck.Report.Result
import ContractCheck.Session.Checks
import ContractCheck.Session.Scan

/-!
A run: the selected files are indexed, then each class is checked under one principle after the
other.
-/
namespace ContractCheck

open Report (Outcome Result)

inductive Principle where
  | substitution
  | segregation
deriving DecidableEq

namespace Principle

def check : Principle → String → Attempt (List Violation)
  | substitution => Work.checkSubstitution
  | segregation => Work.checkSegregation

def heading : Principle → String
  | substitution => "Checking Liskov Substitution Principle...\n"
  | segregation => "\nChecking Interface Segregation Principle...\n"

end Principle

/-- The outcomes of a principle, in order. A cycle of traits interrupts the checks. -/
structure Stage where
  principle : Principle
  outcomes : List Outcome
  interrupted : Bool

def Work.checkAll (check : String → Attempt (List Violation)) : List String →
    Work (List Outcome × Bool)
  | [] => return ([], false)
  | name :: rest => do
    match ← (check name).run with
    | .error .traitCycle => return ([], true)
    | .error (.unknownClass unknown) =>
      let message := (CheckFault.unknownClass unknown).message
      report (.classFailed name message)
      let (outcomes, interrupted) ← checkAll check rest
      return (⟨name, .notLoaded message⟩ :: outcomes, interrupted)
    | .ok violations =>
      let (outcomes, interrupted) ← checkAll check rest
      return (⟨name, .checked violations⟩ :: outcomes, interrupted)

def Work.stage (classes : List String) (principle : Principle) : Work Stage := do
  let (outcomes, interrupted) ← checkAll principle.check classes
  return { principle, outcomes, interrupted }

def Work.stages (classes : List String) : List Principle → Work (List Stage)
  | [] => return []
  | principle :: rest => do
    let first ← stage classes principle
    if first.interrupted then return [first]
    else return first :: (← stages classes rest)

structure RunOptions where
  settings : Settings
  runSubstitution : Bool := true
  runSegregation : Bool := true
  threshold : Option Int := none

namespace RunOptions

def effectiveThreshold (o : RunOptions) : Int :=
  (o.threshold.orElse fun _ => o.settings.threshold).getD Session.defaultThreshold

def principles (o : RunOptions) : List Principle :=
  (if o.runSubstitution then [.substitution] else []) ++
    (if o.runSegregation then [.segregation] else [])

end RunOptions

structure Run where
  scan : Scan
  stages : List Stage := []

namespace Run

def interrupted (run : Run) : Bool :=
  run.stages.any (·.interrupted)

def result (run : Run) : Result :=
  run.stages.foldl (fun r stage => r.add stage.outcomes)
    { classes := run.scan.classes
      errors := run.scan.failures.map fun (path, message) => .file path message }

def textLines (run : Run) : List String :=
  run.scan.failures.map (fun (path, message) => "[ERROR] " ++ path ++ ": " ++ message) ++
    run.stages.flatMap (fun stage =>
      stage.principle.heading :: stage.outcomes.flatMap (·.lines)) ++
    (if run.interrupted then [] else run.result.summary)

def lines (run : Run) (json : Bool) : List String :=
  if !json then run.textLines
  else if run.interrupted then []
  else [run.result.json]

end Run

def Work.runAll (o : RunOptions) : Work Run := do
  let scan ← Work.scan o.settings
  if scan.classes.isEmpty then
    report .nothingToCheck
    return { scan }
  else
    return { scan, stages := ← stages scan.classes o.principles }

def Run.perform (disk : Files.Disk) (o : RunOptions) : Except ThresholdFault (Run × List Notice) := do
  let session ← Session.start disk o.effectiveThreshold none none
  let (run, session) := (Work.runAll o).run session
  return (run, session.notices)

end ContractCheck
