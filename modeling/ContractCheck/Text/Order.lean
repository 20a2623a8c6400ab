/-!
Sorting of texts by code points.
-/
namespace ContractCheck.Text

def notAfter (a b : String) : Bool :=
  !(b < a)

def sorted (texts : List String) : List String :=
  texts.mergeSort notAfter

end ContractCheck.Text
