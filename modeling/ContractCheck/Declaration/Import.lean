import ContractCheck.Table
import ContractCheck.Text.Keyword
import ContractCheck.Text.Split

/-!
Imports of class names by `use` declarations: plain, comma-separated, aliased and grouped.
-/
namespace ContractCheck

abbrev Imports := Table String String

namespace Imports

open Text

def importsNoClass (cs : List Char) : Bool :=
  (dropKeywordSpace "function" cs).isSome || (dropKeywordSpace "const" cs).isSome

def cutAlias : List Char → Option (List Char × List Char)
  | [] => none
  | c :: cs =>
    let onwards := (cutAlias cs).map fun (a, b) => (c :: a, b)
    if isSpace c then
      match dropKeywordSpace "as" (cs.dropWhile isSpace) with
      | some rest => some ([], rest)
      | none => onwards
    else onwards

def parseEntry (entry : List Char) : Option (String × String) :=
  if importsNoClass (afterLast '\\' entry) then none
  else
    let (written, chosen?) :=
      match cutAlias entry with
      | some (before, after) => (before, some (trim after))
      | none => (entry, none)
    let target := (trim written).dropWhile (· = '\\')
    if target = [] then none
    else some (String.ofList (chosen?.getD (afterLast '\\' target)), String.ofList target)

def entryTexts (body : List Char) : List (List Char) :=
  match cutFirst '\x7b' body with
  | some (common, group) =>
    let common := trimWhile (· = '\\') (trim common)
    (trimmedPieces ',' (dropEndWhile (· = '\x7d') group)).map fun e => common ++ '\\' :: e
  | none => trimmedPieces ',' body

def declarationBody (text : String) : List Char :=
  let body := trim (dropEndWhile (· = ';') (trim text.toList))
  (dropKeywordSpace "use" body).getD body

/-- Reads a `use` declaration. A later entry replaces the target of an equal alias. -/
def parse (text : String) : Imports :=
  let body := declarationBody text
  if importsNoClass body then {}
  else
    ((entryTexts body).filterMap parseEntry).foldl (fun acc e => acc.set e.1 e.2) {}

end Imports

def traitNames (text : String) : List String :=
  let body := Text.trim text.toList
  let body := (Text.dropKeywordSpace "use" body).getD body
  let names := ((Text.cutFirst '\x7b' body).map (·.1)).getD body
  (Text.trimmedPieces ',' (Text.dropEndWhile (· = ';') names)).map String.ofList

end ContractCheck
