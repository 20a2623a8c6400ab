import ContractCheck.Text.WhiteSpace

/-!
Recognising fixed words at the start of a text.
-/
namespace ContractCheck.Text

def dropWord (same : Char → Char → Bool) : List Char → List Char → Option (List Char)
  | [], cs => some cs
  | _ :: _, [] => none
  | w :: ws, c :: cs => if same w c then dropWord same ws cs else none

def dropExact (word : String) (cs : List Char) : Option (List Char) :=
  dropWord (· == ·) word.toList cs

def occursIn (word : String) : List Char → Bool
  | [] => word.toList.isEmpty
  | c :: cs => (dropExact word (c :: cs)).isSome || occursIn word cs

/-- Whether a character is a small ASCII letter, its capital, or another character that folds to
the same letter. -/
def isLetterCase (letter c : Char) : Bool :=
  c.toLower == letter ||
    (letter == 's' && c.toNat == 0x17F) ||
    (letter == 'i' && (c.toNat == 0x130 || c.toNat == 0x131))

def dropKeyword (word : String) (cs : List Char) : Option (List Char) :=
  dropWord isLetterCase word.toList cs

def dropKeywordSpace (word : String) (cs : List Char) : Option (List Char) :=
  match dropKeyword word cs with
  | some (c :: rest) => if isSpace c then some (rest.dropWhile isSpace) else none
  | _ => none

end ContractCheck.Text
