import ContractCheck.Declaration.Basic
import ContractCheck.Text.Name

/-!
The class-likes that are part of the language and stand in no analysed source.
-/
namespace ContractCheck.Builtin

def interfaces : List (String × List String) := [
  ("Stringable", []),
  ("Throwable", ["Stringable"]),
  ("Traversable", []),
  ("Iterator", ["Traversable"]),
  ("IteratorAggregate", ["Traversable"]),
  ("ArrayAccess", []),
  ("Countable", []),
  ("JsonSerializable", []),
  ("Serializable", []),
  ("UnitEnum", []),
  ("BackedEnum", ["UnitEnum"]),
  ("DateTimeInterface", []),
  ("SeekableIterator", ["Iterator"]),
  ("OuterIterator", ["Iterator"])]

def classes : List (String × List String) := [
  ("Exception", ["Throwable"]),
  ("ErrorException", ["Exception"]),
  ("JsonException", ["Exception"]),
  ("LogicException", ["Exception"]),
  ("BadFunctionCallException", ["LogicException"]),
  ("BadMethodCallException", ["BadFunctionCallException"]),
  ("DomainException", ["LogicException"]),
  ("InvalidArgumentException", ["LogicException"]),
  ("LengthException", ["LogicException"]),
  ("OutOfRangeException", ["LogicException"]),
  ("RuntimeException", ["Exception"]),
  ("OutOfBoundsException", ["RuntimeException"]),
  ("OverflowException", ["RuntimeException"]),
  ("RangeException", ["RuntimeException"]),
  ("UnderflowException", ["RuntimeException"]),
  ("UnexpectedValueException", ["RuntimeException"]),
  ("Error", ["Throwable"]),
  ("ArithmeticError", ["Error"]),
  ("DivisionByZeroError", ["ArithmeticError"]),
  ("AssertionError", ["Error"]),
  ("CompileError", ["Error"]),
  ("ParseError", ["CompileError"]),
  ("TypeError", ["Error"]),
  ("ArgumentCountError", ["TypeError"]),
  ("ValueError", ["Error"]),
  ("UnhandledMatchError", ["Error"]),
  ("stdClass", []),
  ("Closure", []),
  ("Generator", ["Iterator"]),
  ("ArrayObject", ["IteratorAggregate", "ArrayAccess", "Serializable", "Countable"]),
  ("ArrayIterator", ["SeekableIterator", "ArrayAccess", "Serializable", "Countable"]),
  ("DateTime", ["DateTimeInterface"]),
  ("DateTimeImmutable", ["DateTimeInterface"])]

def interfaceMethods : List (String × List (String × List String)) := [
  ("Stringable", [("__toString", [])]),
  ("Countable", [("count", [])]),
  ("ArrayAccess", [("offsetExists", ["offset"]), ("offsetGet", ["offset"]),
    ("offsetSet", ["offset", "value"]), ("offsetUnset", ["offset"])]),
  ("Iterator", [("current", []), ("next", []), ("key", []), ("valid", []), ("rewind", [])]),
  ("IteratorAggregate", [("getIterator", [])]),
  ("JsonSerializable", [("jsonSerialize", [])]),
  ("Serializable", [("serialize", []), ("unserialize", ["data"])]),
  ("SeekableIterator", [("seek", ["offset"])]),
  ("OuterIterator", [("getInnerIterator", [])])]

def known : List (String × String × List String) :=
  (interfaces ++ classes).map fun (name, supers) => (Text.lower name, name, supers)

def name? (name : String) : Option String :=
  (known.lookup (Text.nameKey name)).map (·.1)

def supertypesOfKey (key : String) : List String :=
  ((known.lookup key).map (·.2)).getD []

def supertypes (name : String) : List String :=
  supertypesOfKey (Text.nameKey name)

def location : Location where
  path := "<builtin>"
  startLine := 0
  endLine := 0

def method (owner name : String) (parameters : List String) : Method where
  owner := owner
  name := name
  parameters := parameters.map fun p => { name := p, type := .absent }
  location := location
  isAbstract := true

/-- The declaration that stands for a built-in interface, so that its methods bind like those of
other interfaces. -/
def interface? (name : String) : Option ClassDecl := do
  let canonical ← name? name
  let extended ← interfaces.lookup canonical
  let methods := ((interfaceMethods.lookup canonical).getD []).map fun (m, parameters) =>
    (Text.lower m, method canonical m parameters)
  return {
    name := canonical
    kind := .interface
    methods := ⟨methods⟩
    location := location
    interfaceRefs := extended }

end ContractCheck.Builtin
