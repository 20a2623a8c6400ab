import ContractCheck.Settings.Decimal

/-!
Values of structured documents, of which settings are made.
-/
namespace ContractCheck.Settings

inductive Value where
  | null
  | bool (b : Bool)
  | int (n : Int)
  | decimal (d : Decimal)
  | unbounded
  | text (s : String)
  | list (items : List Value)
  | mapping (entries : List (String × Value))
  | mixedMapping
  | other
deriving Inhabited

inductive Document where
  | invalid
  | value (v : Value)

end ContractCheck.Settings
