import ContractCheck.Builtin
import ContractCheck.Files.Disk
import ContractCheck.Notice
import ContractCheck.Text.Order

/-!
The class-likes that have been read so far, and the files they were read from.
-/
namespace ContractCheck

inductive IndexFault where
  | syntaxError (path : String) (line : Nat)
  | unreadable (path : String) (fault : Files.ReadFault)
  | nullByte (path : String)

namespace IndexFault

def path : IndexFault → String
  | syntaxError path _ => path
  | unreadable path _ => path
  | nullByte path => path

def message : IndexFault → String
  | syntaxError path line => path ++ ": syntax error near line " ++ toString line
  | unreadable path fault => path ++ ": unreadable source (" ++ fault.message ++ ")"
  | nullByte _ => "embedded null byte"

end IndexFault

/-- The files that were indexed with their class-likes, the class-likes under their lower-cased
names, the files that failed, and the namespaces met. -/
structure Registry where
  files : Table String (List ClassDecl) := {}
  classes : Table String ClassDecl := {}
  failed : Table String IndexFault := {}
  namespaces : List String := []

namespace Registry

def class? (r : Registry) (name : String) : Option ClassDecl :=
  r.classes.find? (Text.nameKey name)

def hasClass (r : Registry) (name : String) : Bool :=
  (r.class? name).isSome

def descriptor? (r : Registry) (name : String) : Option ClassDecl :=
  (r.class? name).orElse fun _ => Builtin.interface? name

def isKnown (r : Registry) (name : String) : Bool :=
  r.hasClass name || (Builtin.name? name).isSome

/-- Registers a class-like. The first declaration of a name wins. -/
def register (r : Registry) (d : ClassDecl) : Registry :=
  { r with classes := r.classes.insertNew (Text.lower d.name) d }

def registerNotices (r : Registry) (d : ClassDecl) : List Notice :=
  .readClass d ::
    match r.classes.find? (Text.lower d.name) with
    | some first => [.keptFirst d.name first.location.path]
    | none => []

def registerAll (r : Registry) (ds : List ClassDecl) : Registry :=
  ds.foldl register r

def registerAllNotices (r : Registry) : List ClassDecl → List Notice
  | [] => []
  | d :: ds => r.registerNotices d ++ (r.register d).registerAllNotices ds

def addNamespaces (r : Registry) (names : List String) : Registry :=
  { r with namespaces := names.foldl (fun acc n => if n ∈ acc then acc else acc ++ [n]) r.namespaces }

def sortedNamespaces (r : Registry) : List String :=
  Text.sorted r.namespaces

end Registry

end ContractCheck
