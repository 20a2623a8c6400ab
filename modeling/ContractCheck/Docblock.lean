import ContractCheck.Text.Keyword
import ContractCheck.Text.Name

/-!
Exceptions that a docblock announces. Each line is read by itself and holds at most one tag.
-/
namespace ContractCheck.Docblock

open Text

def isBlank (c : Char) : Bool :=
  c == ' ' || c == '\t'

/-- What stands after `@throws` at the start of a docblock line: alternatives joined by `|`. -/
def tagText (line : List Char) : Option (List Char) := do
  let line := line.dropWhile isBlank
  let line := ((dropExact "/**" line).orElse fun _ => dropExact "*" line).getD line
  let rest ← dropExact "@throws" (line.dropWhile isBlank)
  let text := (rest.dropWhile isBlank).takeWhile fun c => !isSpace c && c != '*'
  if rest.head?.any isBlank && text != [] then some text else none

/-- The names in the text of a tag: its parts between bars, without the backslashes in front. -/
def alternatives (text : List Char) : List String :=
  (((pieces '|' text).map fun p => p.dropWhile (· = '\\')).filter (· ≠ [])).map String.ofList

def lineNames (line : List Char) : List String :=
  match tagText line with
  | none => []
  | some text => alternatives text

def thrownNames (doc : String) : List String :=
  dedupe ((pieces '\n' doc.toList).flatMap lineNames)

end ContractCheck.Docblock
