/-!
Sets of code points, given by ranges.
-/
namespace ContractCheck.Text

def inRanges (n : Nat) : List (Nat × Nat) → Bool
  | [] => false
  | (a, b) :: rest => if n < a then false else if n ≤ b then true else inRanges n rest

end ContractCheck.Text
