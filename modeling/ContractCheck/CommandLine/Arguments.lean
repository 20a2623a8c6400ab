import ContractCheck.Text.Integer

/-!
The arguments of the command line. Options may stand before or after the directory; the last value
of an option counts, and a double hyphen ends the options.
-/
namespace ContractCheck.CommandLine

/-- What the arguments say. The threshold is still text: only the last one given is read. -/
structure Arguments where
  positional : List String := []
  config : Option String := none
  threshold : Option String := none
  substitution : Bool := false
  segregation : Bool := false
  json : Bool := false
  quiet : Bool := false
  help : Bool := false

inductive UsageFault where
  | unknownOption (name : String)
  | valueMissing (name : String)
  | valueNotTaken (name : String)
  | extraArgument (text : String)
  | badThreshold (text : String)
  | badPath (text : String)

def UsageFault.message : UsageFault → String
  | .unknownOption name => "No such option: " ++ name
  | .valueMissing name => "Option '" ++ name ++ "' requires an argument."
  | .valueNotTaken name => "Option '" ++ name ++ "' does not take a value."
  | .extraArgument text => "Got unexpected extra argument (" ++ text ++ ")"
  | .badThreshold text => "Invalid value for '--isp-threshold': " ++ text
  | .badPath text => "Invalid path: " ++ text

def usage : String :=
  "Usage: check [OPTIONS] [DIRECTORY]\n\n" ++
  "Check PHP classes for LSP and ISP violations.\n\n" ++
  "  -c, --config FILE         YAML config file.\n" ++
  "  --lsp                     Run only the Liskov Substitution checks.\n" ++
  "  --isp                     Run only the Interface Segregation checks.\n" ++
  "  --isp-threshold INTEGER   Methods before an interface is reported as fat.\n" ++
  "  --json                    Print a JSON report instead of text.\n" ++
  "  -q, --quiet               Only log warnings and errors.\n" ++
  "  --help                    Show this message and exit."

inductive Switch where
  | flag (set : Arguments → Arguments)
  | valued (set : String → Arguments → Arguments)

def longOption? (name : String) : Option Switch :=
  match name with
  | "--config" => some (.valued fun v a => { a with config := some v })
  | "--isp-threshold" => some (.valued fun v a => { a with threshold := some v })
  | "--lsp" => some (.flag fun a => { a with substitution := true })
  | "--isp" => some (.flag fun a => { a with segregation := true })
  | "--json" => some (.flag fun a => { a with json := true })
  | "--quiet" => some (.flag fun a => { a with quiet := true })
  | "--help" => some (.flag fun a => { a with help := true })
  | _ => none

def shortOption? (letter : Char) : Option Switch :=
  match letter with
  | 'c' => some (.valued fun v a => { a with config := some v })
  | 'q' => some (.flag fun a => { a with quiet := true })
  | _ => none

inductive Effect where
  | done (set : Arguments → Arguments)
  | needsValue (name : String) (set : String → Arguments → Arguments)

def readShort (set : Arguments → Arguments) : List Char → Except UsageFault Effect
  | [] => .ok (.done set)
  | letter :: rest =>
    match shortOption? letter with
    | none => .error (.unknownOption (String.ofList ['-', letter]))
    | some (.flag more) => readShort (more ∘ set) rest
    | some (.valued more) =>
      if rest = [] then .ok (.needsValue (String.ofList ['-', letter]) fun v => more v ∘ set)
      else .ok (.done (more (String.ofList rest) ∘ set))

def readOption (arg : String) : Except UsageFault Effect :=
  let (name, value?) :=
    match Text.cutFirst '=' arg.toList with
    | some (name, value) => (String.ofList name, some (String.ofList value))
    | none => (arg, none)
  match longOption? name, value? with
  | some (.flag set), none => .ok (.done set)
  | some (.flag _), some _ => .error (.valueNotTaken name)
  | some (.valued set), some value => .ok (.done (set value))
  | some (.valued set), none => .ok (.needsValue name set)
  | none, _ =>
    match arg.toList with
    | '-' :: '-' :: _ => .error (.unknownOption name)
    | _ :: letters => readShort id letters
    | [] => .ok (.done id)

def addPositional (args : List String) (a : Arguments) : Arguments :=
  { a with positional := a.positional ++ args }

def looksLikeOption (arg : String) : Bool :=
  match arg.toList with
  | '-' :: _ :: _ => true
  | _ => false

def readAll (a : Arguments) : List String → Except UsageFault Arguments
  | [] => .ok a
  | "--" :: rest => .ok (addPositional rest a)
  | arg :: rest =>
    if !looksLikeOption arg then readAll (addPositional [arg] a) rest
    else
      match readOption arg, rest with
      | .error fault, _ => .error fault
      | .ok (.done set), rest => readAll (set a) rest
      | .ok (.needsValue _ set), value :: rest => readAll (set value a) rest
      | .ok (.needsValue name _), [] => .error (.valueMissing name)

structure Request where
  directory : Option String
  config : Option String
  threshold : Option Int
  substitution : Bool
  segregation : Bool
  json : Bool
  quiet : Bool

inductive Command where
  | help
  | check (request : Request)

def readThreshold : Option String → Except UsageFault (Option Int)
  | none => .ok none
  | some text =>
    match Text.readInteger text with
    | .ok n => if n < 1 then .error (.badThreshold text) else .ok (some n)
    | .error _ => .error (.badThreshold text)

def readPath : Option String → Except UsageFault (Option String)
  | none => .ok none
  | some text => if text.toList.contains '\x00' then .error (.badPath text) else .ok (some text)

def Command.parse (args : List String) : Except UsageFault Command := do
  let a ← readAll {} args
  if a.help then return .help
  let threshold ← readThreshold a.threshold
  let config ← readPath a.config
  match a.positional with
  | _ :: extra :: _ => throw (.extraArgument extra)
  | positional =>
    return .check {
      directory := ← readPath positional.head?
      config := config
      threshold := threshold
      substitution := a.substitution
      segregation := a.segregation
      json := a.json
      quiet := a.quiet }

end ContractCheck.CommandLine
