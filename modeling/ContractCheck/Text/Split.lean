import ContractCheck.Text.WhiteSpace

/-!
Cutting text at a separator, on lists of characters and on strings.
-/
namespace ContractCheck.Text

def pieces (sep : Char) : List Char → List (List Char)
  | [] => [[]]
  | c :: cs =>
    if c = sep then [] :: pieces sep cs
    else
      match pieces sep cs with
      | [] => [[c]]
      | p :: ps => (c :: p) :: ps

def cutFirst (sep : Char) : List Char → Option (List Char × List Char)
  | [] => none
  | c :: cs =>
    if c = sep then some ([], cs)
    else (cutFirst sep cs).map fun (a, b) => (c :: a, b)

def afterLast (sep : Char) (cs : List Char) : List Char :=
  (cs.reverse.takeWhile (· ≠ sep)).reverse

def trimmedPieces (sep : Char) (cs : List Char) : List (List Char) :=
  ((pieces sep cs).map trim).filter (· ≠ [])

def trimText (s : String) : String :=
  String.ofList (trim s.toList)

def splitText (sep : Char) (s : String) : List String :=
  (pieces sep s.toList).map String.ofList

def joinWith (sep : String) : List String → String
  | [] => ""
  | [s] => s
  | s :: t :: rest => s ++ sep ++ joinWith sep (t :: rest)

end ContractCheck.Text
