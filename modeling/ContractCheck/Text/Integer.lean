import ContractCheck.Text.Split

/-!
Reading integers. White space may stand around an integer and a sign before it; zeros in front do
not count; single underscores may divide its digits; a point and zeros may follow it.
-/
namespace ContractCheck.Text

inductive IntegerFault where
  | malformed
  | tooLong
deriving DecidableEq

def dropPlus : List Char → Option (List Char)
  | '+' :: '-' :: _ => none
  | '+' :: cs => some cs
  | cs => some cs

def startsNumber (c : Char) : Bool :=
  c == '-' || (c != '0' && c.isDigit)

/-- Drops zeros and underscores, after one of either kind. The last of them is kept where nothing
or a point follows. -/
def dropZerosAfter (last : Char) : List Char → Option (List Char)
  | [] => some [last]
  | c :: cs =>
    if c = '0' || c = '_' then dropZerosAfter c cs
    else if startsNumber c then some (c :: cs)
    else if c = '.' then some (last :: c :: cs)
    else none

def dropLeadingZeros : List Char → Option (List Char)
  | [] => none
  | c :: cs =>
    if c = '0' then dropZerosAfter c cs else if startsNumber c then some (c :: cs) else none

def dropDecimalZeros (cs : List Char) : List Char :=
  match cutFirst '.' cs with
  | some (whole, zeros) => if zeros ≠ [] && zeros.all (· = '0') then whole else cs
  | none => cs

def dropUnderscores (cs : List Char) : List Char :=
  let groups := pieces '_' cs
  if groups.contains [] then cs else groups.flatten

def cutMinus : List Char → Bool × List Char
  | '-' :: cs => (true, cs)
  | cs => (false, cs)

def bareInteger (cs : List Char) : Option (List Char) := do
  let (negative, digits) := cutMinus (← dropPlus (trimWhile isUnicodeSpace cs))
  let bare := dropUnderscores (dropDecimalZeros (← dropLeadingZeros digits))
  return if negative then '-' :: bare else bare

def ofDigits (digits : List Char) : Nat :=
  digits.foldl (fun n d => 10 * n + (d.toNat - 48)) 0

def maxDigits : Nat := 4300

def ofBareInteger (cs : List Char) : Except IntegerFault Int :=
  let (negative, rest) := cutMinus cs
  let digits := rest.takeWhile Char.isDigit
  if digits.head? ≠ some '0' && digits.length > maxDigits then .error .tooLong
  else if digits = rest && (digits = ['0'] || digits.head?.any (· ≠ '0')) then
    .ok (if negative then -(ofDigits digits : Int) else ofDigits digits)
  else .error .malformed

/-- Reads an integer. Only a text that starts with too many digits as it is written is called too
long; if they come to light as its bare form is taken, it is malformed. -/
def readInteger (s : String) : Except IntegerFault Int :=
  match ofBareInteger s.toList with
  | .error .malformed =>
    match (bareInteger s.toList).map ofBareInteger with
    | some (.ok n) => .ok n
    | _ => .error .malformed
  | outcome => outcome

end ContractCheck.Text
