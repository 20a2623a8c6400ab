import ContractCheck.Text.LowerCase
import ContractCheck.Text.Split

/-!
Names of class-likes and methods. Segments are divided by backslashes and letter case does not
matter.
-/
namespace ContractCheck.Text

def dropBackslashes (name : String) : String :=
  String.ofList (name.toList.dropWhile (· = '\\'))

def trimBackslashes (name : String) : String :=
  String.ofList (trimWhile (· = '\\') name.toList)

def lastSegment (name : String) : String :=
  String.ofList (afterLast '\\' name.toList)

/-- The key under which a class-like is looked up: no leading backslash, letter case ignored. -/
def nameKey (name : String) : String :=
  lower (dropBackslashes name)

def sameName (a b : String) : Bool :=
  lower a == lower b

/-- Drops repeated names, ignoring letter case; the first spelling stays in its place. -/
def dedupeFrom (seen : List String) : List String → List String
  | [] => []
  | name :: rest =>
    if (lower name) ∈ seen then dedupeFrom seen rest
    else name :: dedupeFrom (lower name :: seen) rest

def dedupe (names : List String) : List String :=
  dedupeFrom [] names

end ContractCheck.Text
