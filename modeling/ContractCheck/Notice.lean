import ContractCheck.Declaration.Basic

/-!
What the program reports while it works, besides its results.
-/
namespace ContractCheck

inductive Level where
  | debug
  | info
  | warning
deriving DecidableEq

namespace Level

def rank : Level → Nat
  | debug => 0
  | info => 1
  | warning => 2

def label : Level → String
  | debug => "DEBUG"
  | info => "INFO"
  | warning => "WARNING"

end Level

inductive CallKind where
  | ownInstance
  | static
  | newInstance
  | typedVariable
deriving DecidableEq

def CallKind.label : CallKind → String
  | .ownInstance => "intra-instance"
  | .static => "static"
  | .newInstance => "new-instance"
  | .typedVariable => "typed-variable"

inductive Notice where
  | reusedFile (key : String)
  | parsedFile (key : String) (classCount : Nat)
  | readClass (d : ClassDecl)
  | keptFirst (name firstPath : String)
  | unknownTrait (ref user : String)
  | unknownSubtype (candidate target : String)
  | visitedBefore (method : String)
  | unknownCallee (caller className : String)
  | followed (caller callee : String) (kind : CallKind) (line : Nat)
  | fatInterface (name : String) (methodCount : Nat) (threshold : Int)
  | exceptionViolations (className method : String) (count : Nat)
  | substitutionChecked (className : String) (count : Nat)
  | segregationChecked (className : String) (count : Nat)
  | settingsLoaded (path : String) (directoryCount fileCount : Nat)
  | notDirectory (path : String)
  | fileNotFound (path : String)
  | fileFailed (path reason : String)
  | scanned (classCount fileCount : Nat)
  | nothingToCheck
  | classFailed (name reason : String)
  | checksStarted (substitution segregation : Bool) (threshold : Int)

namespace Notice

def level : Notice → Level
  | settingsLoaded .. | scanned .. | nothingToCheck | checksStarted .. => .info
  | notDirectory .. | fileNotFound .. | fileFailed .. | classFailed .. => .warning
  | _ => .debug

def sender : Notice → String
  | reusedFile .. | parsedFile .. | readClass .. | keptFirst .. => "php_solid.indexer"
  | unknownTrait .. | unknownSubtype .. => "php_solid.resolver"
  | visitedBefore .. | unknownCallee .. | followed .. => "php_solid.throws.detector"
  | fatInterface .. => "php_solid.rules.isp"
  | exceptionViolations .. => "php_solid.rules.lsp"
  | substitutionChecked .. | segregationChecked .. => "php_solid.checkers"
  | settingsLoaded .. => "php_solid.config"
  | notDirectory .. | fileNotFound .. | fileFailed .. | scanned .. =>
    "php_solid.inputs.directory_scanning"
  | nothingToCheck | classFailed .. => "php_solid.application"
  | checksStarted .. => "php_solid.main"

def message : Notice → String
  | reusedFile key => "[PARSE] cache hit " ++ key
  | parsedFile key count => "[PARSE] parsed " ++ key ++ ": " ++ toString count ++ " class-like(s)"
  | readClass d =>
    "[INDEX] " ++ d.kind.label ++ " " ++ d.name ++ " (" ++ toString d.methods.entries.length ++
      " methods) @ " ++ d.location.path ++ ":" ++ toString d.location.startLine
  | keptFirst name path =>
    "[INDEX] " ++ name ++ " already declared in " ++ path ++ "; keeping the first declaration"
  | unknownTrait ref user => "[RESOLVE] trait " ++ ref ++ " used by " ++ user ++ " is not indexed"
  | unknownSubtype candidate target =>
    "[RESOLVE] " ++ candidate ++ " is not indexed; not a subtype of " ++ target
  | visitedBefore method => "[THROWS] " ++ method ++ " already visited; skipping"
  | unknownCallee caller name =>
    "[THROWS] " ++ caller ++ ": " ++ name ++ " is not indexed; not following"
  | followed caller callee kind line =>
    "[THROWS] " ++ caller ++ " -> " ++ callee ++ " (" ++ kind.label ++ ", line " ++
      toString line ++ ")"
  | fatInterface name count threshold =>
    "[ISP] " ++ name ++ " has " ++ toString count ++ " methods (threshold " ++
      toString threshold ++ ")"
  | exceptionViolations name method count =>
    "[LSP] " ++ name ++ "::" ++ method ++ ": " ++ toString count ++ " throws violation(s)"
  | substitutionChecked name count => "[LSP] " ++ name ++ ": " ++ toString count ++ " violation(s)"
  | segregationChecked name count => "[ISP] " ++ name ++ ": " ++ toString count ++ " violation(s)"
  | settingsLoaded path directories files =>
    "[CONFIG] Loaded " ++ path ++ ": " ++ toString directories ++ " directories, " ++
      toString files ++ " files"
  | notDirectory path => "[SCAN] Not a directory, skipping: " ++ path
  | fileNotFound path => "[SCAN] File not found, skipping: " ++ path
  | fileFailed path reason => "[SCAN] Failed to index " ++ path ++ ": " ++ reason
  | scanned classes files =>
    "[SCAN] Found " ++ toString classes ++ " classes in " ++ toString files ++ " files"
  | nothingToCheck => "[CLI] No classes to check"
  | classFailed name reason => "[CLI] Could not load " ++ name ++ ": " ++ reason
  | checksStarted substitution segregation threshold =>
    "[CLI] Running " ++ (if substitution then "LSP " else "") ++
      (if segregation then "ISP " else "") ++ "checks (fat interface threshold " ++
      toString threshold ++ ")"

def render (n : Notice) : String :=
  "[" ++ n.level.label ++ "] " ++ n.sender ++ " — " ++ n.message

def lines (lowest : Level) (notices : List Notice) : List String :=
  (notices.filter fun n => lowest.rank ≤ n.level.rank).flatMap fun n =>
    Text.splitText '\n' n.render

end Notice

end ContractCheck
