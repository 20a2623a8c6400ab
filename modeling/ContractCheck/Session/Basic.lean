import ContractCheck.Registry.Indexing
import ContractCheck.Rules.Segregation
import ContractCheck.Rules.Substitution

/-!
A session: the registered declarations together with all that is remembered from one question to
the next. Ancestors and traces are worked out once and then kept for good, also when later files
would change them.
-/
namespace ContractCheck

inductive SubstitutionRule where
  | exceptions
  | returnType
  | parameterTypes
deriving DecidableEq

inductive SegregationRule where
  | stubs
  | fatInterface
  | unfinished
deriving DecidableEq

/-- Whose memory of ancestors a question is put to: that of the session, or the one that rules
picked by hand share. -/
inductive Memory where
  | session
  | picked
deriving DecidableEq

def Memory.analyst (m : Memory) (place : Nat) : Nat :=
  match m with
  | .session => 0
  | .picked => place + 1

structure RuleList (ρ : Type) where
  memory : Memory
  rules : List ρ

abbrev AncestorMemo := Table String (List String)

abbrev TraceMemo := Table (String × String) Trace

/-- The state of a session. Traces are remembered apart for the session itself, number 0, and for
each rule picked by hand, by its place in the list; fat interfaces that were reported are remembered
for each rule by its place. -/
structure Session where
  disk : Files.Disk
  registry : Registry := {}
  ancestors : AncestorMemo := {}
  pickedAncestors : AncestorMemo := {}
  traces : Table Nat TraceMemo := {}
  reported : Table Nat (List String) := {}
  substitution : RuleList SubstitutionRule
  segregation : RuleList SegregationRule
  threshold : Int
  notices : List Notice := []

inductive ThresholdFault where
  | tooSmall (threshold : Int)

def ThresholdFault.message : ThresholdFault → String
  | tooSmall threshold => "Fat interface threshold must be >= 1, got " ++ toString threshold

inductive CheckFault where
  | unknownClass (name : String)
  | traitCycle

def CheckFault.message : CheckFault → String
  | unknownClass name => "Class \"" ++ name ++ "\" does not exist (not found in any indexed file)"
  | traitCycle => "traits use each other in a cycle"

abbrev Work := StateM Session

abbrev Attempt := ExceptT CheckFault Work

namespace Session

def defaultThreshold : Int := 5

/-- Opens a session. Rules picked by hand replace the standard ones and measure interfaces by the
default threshold. -/
def start (disk : Files.Disk) (threshold : Int)
    (substitution : Option (List SubstitutionRule))
    (segregation : Option (List SegregationRule)) : Except ThresholdFault Session :=
  let first : RuleList SubstitutionRule :=
    match substitution with
    | some rules => ⟨.picked, rules⟩
    | none => ⟨.session, [.exceptions, .returnType, .parameterTypes]⟩
  match segregation with
  | some rules =>
    .ok { disk, substitution := first, segregation := ⟨.picked, rules⟩,
          threshold := defaultThreshold }
  | none =>
    if threshold < 1 then .error (.tooSmall threshold)
    else
      .ok { disk, substitution := first,
            segregation := ⟨.session, [.stubs, .fatInterface, .unfinished]⟩, threshold }

def memo (s : Session) : Memory → AncestorMemo
  | .session => s.ancestors
  | .picked => s.pickedAncestors

/-- The hierarchy as a memory sees it: what is remembered goes before what is declared. -/
def hierarchy (s : Session) (m : Memory) : Hierarchy where
  registry := s.registry
  ancestorsOf name := ((s.memo m).find? (Text.nameKey name)).getD (s.registry.ancestors name)

def remember (s : Session) (m : Memory) (name : String) : Session :=
  let key := Text.nameKey name
  if (s.memo m).contains key then s
  else
    let memo := (s.memo m).insertNew key (s.registry.ancestors name)
    match m with
    | .session => { s with ancestors := memo }
    | .picked => { s with pickedAncestors := memo }

def note (s : Session) (n : Notice) : Session :=
  { s with notices := s.notices ++ [n] }

def absorb (m : Memory) (s : Session) : Event → Session
  | .notice n => s.note n
  | .ancestorsAsked name => s.remember m name

end Session

namespace Work

def ask {α : Type} (m : Memory) (question : Hierarchy → Traced α) : Work α := fun s =>
  let answer := question (s.hierarchy m)
  (answer.value, answer.events.foldl (Session.absorb m) s)

def attempt {α : Type} (m : Memory) (question : Hierarchy → TracedOrCycle α) : Attempt α :=
  ExceptT.mk do
    match ← ask m question with
    | .ok a => return .ok a
    | .error .found => return .error .traitCycle

def report (n : Notice) : Work Unit :=
  modify (·.note n)

def gather {m : Type → Type} [Monad m] {α β : Type} (f : α → m (List β)) : List α → m (List β)
  | [] => pure []
  | a :: rest => do
    let found ← f a
    let more ← gather f rest
    return found ++ more

def index (attempt : Session → Indexing) : Work (Except IndexFault (List ClassDecl)) := fun s =>
  let result := attempt s
  (result.outcome, { s with registry := result.registry, notices := s.notices ++ result.notices })

def indexFile (path : String) : Work (Except IndexFault (List ClassDecl)) :=
  index fun s => s.registry.indexFile s.disk path

def indexSource (path source : String) (parse : Files.Parse) :
    Work (Except IndexFault (List ClassDecl)) :=
  index fun s => s.registry.indexSource s.disk path source parse

/-- The exceptions that can leave a method when it runs on a class, by default on its owner. They
are worked out once for each analyst: number 0 is the session's own. -/
def trace (m : Memory) (analyst : Nat) (method : Method) (context : Option ClassDecl) :
    Work Trace := do
  let s ← get
  let context := context.orElse fun _ => s.registry.class? method.owner
  let key := (Text.lower method.qualifiedName, (context.map (Text.lower ·.name)).getD "")
  match ((s.traces.find? analyst).getD {}).find? key with
  | some known => return known
  | none =>
    let found ← ask m (·.trace ⟨method, context⟩)
    modify fun s =>
      { s with traces := s.traces.set analyst (((s.traces.find? analyst).getD {}).insertNew key found) }
    return found

end Work

end ContractCheck
