import ContractCheck.Exceptions.Body

/-!
Which exceptions can leave a method, and by which chains of calls. Every method is entered at most
once in one analysis, so calls that come back to a method end there.
-/
namespace ContractCheck

abbrev Chain := List String

abbrev Trace := Table String (List Chain)

namespace Trace

def add (t : Trace) (exception : String) (chain : Chain) : Trace :=
  let name := ((t.keys.find? (Text.sameName · exception))).getD exception
  let chains := (t.find? name).getD []
  t.set name (if chains.contains chain then chains else chains ++ [chain])

def addCallee (t : Trace) (caller : String) (callee : Trace) : Trace :=
  callee.entries.foldl (fun acc (exception, chains) =>
    chains.foldl (fun acc chain => acc.add exception (caller :: chain)) acc) t

end Trace

abbrev Entered := Table String Frame

def Frame.key (f : Frame) : String :=
  Text.lower f.method.qualifiedName

structure Tracing where
  found : Trace := {}
  followed : List (String × String) := []
  entered : Entered

namespace Hierarchy

/-- The class that a callee runs on: the one of the caller, where that descends from the class that
the call names. -/
def calleeContext (h : Hierarchy) (context : Option ClassDecl) (named : ClassDecl) :
    Traced ClassDecl :=
  match context with
  | none => pure named
  | some c => do
    if ← h.isDescendant c.name named.name then return c else return named

def callee? (h : Hierarchy) (caller : Frame) (edge : CallEdge) : Traced (Option Frame) :=
  match h.registry.class? edge.className with
  | none => do
    Traced.report (.unknownCallee caller.method.qualifiedName edge.className)
    return none
  | some d => do
    match ← h.findMethod d edge.method with
    | none => return none
    | some m =>
      if m.body.isNone then return none
      else
        let context ← h.calleeContext caller.context d
        Traced.report
          (.followed caller.method.qualifiedName m.qualifiedName edge.kind edge.line)
        return some ⟨m, some context⟩

/-- Follows a call from the body of a frame, unless a call of the same name on the same class was
followed from there before. The callee is analysed by a given function. -/
def follow (h : Hierarchy) (enter : Frame → Entered → Traced (Trace × Entered)) (frame : Frame)
    (s : Tracing) (edge : CallEdge) : Traced Tracing :=
  if edge.key ∈ s.followed then pure s
  else do
    let followed := edge.key :: s.followed
    match ← h.callee? frame edge with
    | none => return { s with followed }
    | some callee =>
      let (trace, entered) ← enter callee s.entered
      return ⟨s.found.addCallee frame.method.qualifiedName trace, followed, entered⟩

def thrownHere (h : Hierarchy) (frame : Frame) (body : Syntax.Node) : Trace :=
  (frame.thrown h.registry body).foldl (·.add · [frame.method.qualifiedName]) {}

/-- Analyses a method, entering calls to a given depth. The methods entered before are given and
come back with those that were entered now. -/
def analyze (h : Hierarchy) : Nat → Frame → Entered → Traced (Trace × Entered)
  | 0, _, entered => pure ({}, entered)
  | depth + 1, frame, entered =>
    if entered.contains frame.key then do
      Traced.report (.visitedBefore frame.method.qualifiedName)
      return ({}, entered)
    else
      let entered := entered.insertNew frame.key frame
      match frame.method.body with
      | none => pure ({}, entered)
      | some body => do
        let start : Tracing := { found := h.thrownHere frame body, entered }
        let final ← (frame.calls h.registry body).foldlM (h.follow (h.analyze depth) frame) start
        return (final.found, final.entered)

/-- How deep calls can go without entering a method twice: no deeper than there are methods. -/
def maxDepth (h : Hierarchy) : Nat :=
  (h.registry.classes.values.flatMap (·.methods.values)).length + 2

def trace (h : Hierarchy) (frame : Frame) : Traced Trace := do
  let (trace, _) ← h.analyze h.maxDepth frame {}
  return trace

end Hierarchy

end ContractCheck
