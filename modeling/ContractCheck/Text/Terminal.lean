import ContractCheck.Text.Split

/-!
Control sequences of a terminal, such as changes of colour. Such a sequence is an escape character,
an opening bracket, parameters and a letter; text that is written to no terminal goes without them.
-/
namespace ContractCheck.Text

def escape : Char := '\x1b'

def isParameter (c : Char) : Bool :=
  c.isDigit || c == ';' || c == '?'

def afterSequence? : List Char → Option (List Char)
  | '[' :: cs =>
    match cs.dropWhile isParameter with
    | letter :: rest => if letter.isAlpha then some rest else none
    | [] => none
  | _ => none

/-- Drops the control sequences from a text. An escape character that starts none is kept. -/
def dropSequences (cs : List Char) : List Char :=
  match pieces escape cs with
  | [] => []
  | first :: rest => first ++ rest.flatMap fun p => (afterSequence? p).getD (escape :: p)

def plain (s : String) : String :=
  String.ofList (dropSequences s.toList)

end ContractCheck.Text
