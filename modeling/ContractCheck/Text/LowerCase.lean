import ContractCheck.Text.CaseTable

/-!
Lower-casing of names. Names are compared by their lower-cased text everywhere, so this function
decides which names are the same.
-/
namespace ContractCheck.Text

def smallLetter (n : Nat) : List CaseRun → Nat
  | [] => n
  | r :: rest =>
    if n < r.first then n
    else if n ≤ r.last && (n - r.first) % r.step == 0 then (n + r.shift).toNat
    else smallLetter n rest

def lowerSimple (c : Char) : Char :=
  if c.toNat < 128 then c.toLower else Char.ofNat (smallLetter c.toNat caseRuns)

/-- Whether a sigma ends a word: a letter stands before it and none after it, other marks aside.
The text before it is given in reverse. -/
def endsWord (before after : List Char) : Bool :=
  match before.dropWhile isCaseIgnorable with
  | [] => false
  | c :: _ =>
    isCased c &&
      match after.dropWhile isCaseIgnorable with
      | [] => true
      | d :: _ => !isCased d

def lowerAt (before : List Char) (c : Char) (after : List Char) : List Char :=
  if c.toNat = 0x3A3 then [if endsWord before after then 'ς' else 'σ']
  else if c.toNat = 0x130 then ['i', '̇']
  else [lowerSimple c]

def lowerFrom : List Char → List Char → List Char
  | _, [] => []
  | before, c :: after => lowerAt before c after ++ lowerFrom (c :: before) after

def lower (s : String) : String :=
  String.ofList (lowerFrom [] s.toList)

end ContractCheck.Text
