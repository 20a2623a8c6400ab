import ContractCheck.CommandLine.Arguments
import ContractCheck.Run
import ContractCheck.Settings.Load
import ContractCheck.Text.Terminal

/-!
Carrying out a command: settings are loaded, the directory is added to them, and a run is made. The
exit code is 0 if all classes passed, 1 if some failed, and 2 if the command could not be carried
out.
-/
namespace ContractCheck.CommandLine

open Files (Disk Path)

inductive Crash where
  | traitCycle
  | settings (fault : Settings.LoadFault)
  | path (fault : Files.ReadFault)

def Crash.message : Crash → String
  | .traitCycle => "a trait uses itself"
  | .settings (.keyNotText) => "a key of the config file is not a string"
  | .settings fault => fault.message
  | .path fault => fault.message

structure Ending where
  exitCode : Nat
  output : List String := []
  errors : List String := []
  notices : List Notice := []
  crash : Option Crash := none

def Request.level (r : Request) : Level :=
  if r.quiet then .warning else .info

def Request.baseSettings (r : Request) (disk : Disk) :
    Except Settings.LoadFault Settings × List Notice :=
  match r.config with
  | none => (.ok {}, [])
  | some path => Settings.load disk (Path.ofString path)

def loadEnding (fault : Settings.LoadFault) : Ending :=
  match fault with
  | .undecodable _ | .keyNotText | .nameTooLong _ | .denied _ =>
    { exitCode := 1, crash := some (.settings fault) }
  | _ => { exitCode := 2, errors := ["Error: " ++ fault.message] }

/-- Without a choice both principles are checked. -/
def Request.options (r : Request) (settings : Settings) : RunOptions :=
  let both := !r.substitution && !r.segregation
  { settings := settings
    runSubstitution := r.substitution || both
    runSegregation := r.segregation || both
    threshold := r.threshold }

def Request.runChecks (r : Request) (disk : Disk) (settings : Settings) : Ending :=
  let o := r.options settings
  let started : Notice := .checksStarted o.runSubstitution o.runSegregation o.effectiveThreshold
  match Run.perform disk o with
  | .error fault => { exitCode := 2, errors := ["Error: " ++ fault.message], notices := [started] }
  | .ok (run, notices) =>
    { exitCode := if run.interrupted || run.result.failedCount != 0 then 1 else 0
      output := run.lines r.json
      notices := started :: notices
      crash := if run.interrupted then some .traitCycle else none }

def Ending.after (e : Ending) (notices : List Notice) : Ending :=
  { e with notices := notices ++ e.notices }

def Ending.plain (e : Ending) : Ending :=
  { e with output := e.output.map Text.plain, errors := e.errors.map Text.plain }

def Request.ending (r : Request) (disk : Disk) : Ending :=
  if r.directory.isNone && r.config.isNone then
    { exitCode := 2, errors := ["Error: give a DIRECTORY or --config FILE."] }
  else
    match r.baseSettings disk with
    | (.error fault, notices) => (loadEnding fault).after notices
    | (.ok settings, notices) =>
      match r.directory.map Path.ofString with
      | none => (r.runChecks disk settings).after notices
      | some directory =>
        let shown := directory.render
        let ending : Ending :=
          match disk.locate shown with
          | .entry (.folder _) | .entry .closed => r.runChecks disk (settings.addDirectory shown)
          | .tooLong => { exitCode := 1, crash := some (.path (.tooLong shown)) }
          | .denied => { exitCode := 1, crash := some (.path (.denied shown)) }
          | _ => { exitCode := 2, errors := ["Error: '" ++ shown ++ "' is not a directory."] }
        ending.after notices

def Request.execute (r : Request) (disk : Disk) : Ending :=
  (r.ending disk).plain

end ContractCheck.CommandLine
