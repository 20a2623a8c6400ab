import ContractCheck.Report.Json
import ContractCheck.Violation

/-!
What a run of checks gives: a verdict on each class, and the result that sums the verdicts up.
-/
namespace ContractCheck.Report

inductive Verdict where
  | checked (violations : List Violation)
  | notLoaded (message : String)

structure Outcome where
  className : String
  verdict : Verdict

namespace Outcome

def violations (o : Outcome) : List Violation :=
  match o.verdict with
  | .checked violations => violations
  | .notLoaded _ => []

def passed (o : Outcome) : Bool :=
  match o.verdict with
  | .checked violations => violations.isEmpty
  | .notLoaded _ => false

def lines (o : Outcome) : List String :=
  let remarks := match o.verdict with
    | .checked violations => violations.map Violation.render
    | .notLoaded message => ["Error: " ++ message]
  ((if o.passed then "[PASS] " else "[FAIL] ") ++ o.className) ::
    remarks.map ("       -> " ++ ·)

end Outcome

inductive RunError where
  | file (path message : String)
  | load (name message : String)

def Outcome.error? (o : Outcome) : Option RunError :=
  match o.verdict with
  | .notLoaded message => some (.load o.className message)
  | .checked _ => none

structure Result where
  classes : List String
  violations : List Violation := []
  errors : List RunError := []
  failedClasses : List String := []

namespace Result

def add (r : Result) (outcomes : List Outcome) : Result :=
  { r with
    violations := r.violations ++ outcomes.flatMap (·.violations)
    errors := r.errors ++ outcomes.filterMap (·.error?)
    failedClasses := r.failedClasses ++ (outcomes.filter (!·.passed)).map (·.className) }

def failedCount (r : Result) : Nat :=
  r.failedClasses.eraseDups.length

def passedCount (r : Result) : Nat :=
  r.classes.length - r.failedCount

def totalViolations (r : Result) : Nat :=
  r.violations.length

def summary (r : Result) : List String :=
  let total := toString r.classes.length
  ["", "Classes checked: " ++ total,
    "Passed: " ++ toString r.passedCount ++ " / " ++ total,
    "Total violations: " ++ toString r.totalViolations]

end Result

def textOrNull : Option String → Json
  | none => .null
  | some s => .text s

def violationJson : Violation → Json
  | .substitution className method contract fault => .object [
      ("principle", .text "LSP"), ("className", .text className), ("methodName", .text method),
      ("contractName", .text contract), ("reason", .text fault.reason),
      ("details", textOrNull fault.details)]
  | .segregation className interface fault => .object [
      ("principle", .text "ISP"), ("className", .text className),
      ("interfaceName", .text interface), ("reason", .text fault.reason),
      ("details", textOrNull fault.details)]

def errorJson : RunError → Json
  | .file path message => .object [("file", .text path), ("message", .text message)]
  | .load name message => .object [("class", .text name), ("message", .text message)]

def Result.json (r : Result) : String :=
  (Json.object [
    ("violations", .list (r.violations.map violationJson)),
    ("errors", .list (r.errors.map errorJson))]).render

end ContractCheck.Report
