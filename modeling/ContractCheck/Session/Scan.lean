import ContractCheck.Files.Selection
import ContractCheck.Session.Basic

/-!
Indexing all files that settings select.
-/
namespace ContractCheck

structure Scan where
  classes : List String := []
  failures : List (String × String) := []

namespace Work

def indexAll : List String → Work Scan
  | [] => return {}
  | path :: rest => do
    match ← indexFile path with
    | .error fault =>
      report (.fileFailed path fault.message)
      let scan ← indexAll rest
      return { scan with failures := (path, fault.message) :: scan.failures }
    | .ok classes =>
      let scan ← indexAll rest
      let names := (classes.filter (·.kind = .cls)).map (·.name)
      return { scan with classes := names ++ scan.classes }

def scan (settings : Settings) : Work Scan := do
  let s ← get
  (Files.selectNotices s.disk settings).forM report
  let scan ← indexAll (Files.select s.disk settings)
  let scan := { scan with classes := Text.sorted scan.classes }
  report (.scanned scan.classes.length (← get).registry.files.entries.length)
  return scan

end Work

end ContractCheck
