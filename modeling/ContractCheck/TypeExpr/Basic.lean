import ContractCheck.Text.LowerCase

/-!
Type declarations of methods and parameters.
-/
namespace ContractCheck

/-- A type as it is declared. `absent` stands where no type was written, also as a member. -/
inductive TypeExpr where
  | absent
  | named (name : String)
  | nullable (inner : TypeExpr)
  | union (members : List TypeExpr)
  | intersection (members : List TypeExpr)
  | self
  | static
  | parent
  | void
  | mixed

namespace TypeExpr

mutual

def decEq : (a b : TypeExpr) → Decidable (a = b)
  | .absent, b => by cases b <;> first | exact isTrue rfl | exact isFalse nofun
  | .self, b => by cases b <;> first | exact isTrue rfl | exact isFalse nofun
  | .static, b => by cases b <;> first | exact isTrue rfl | exact isFalse nofun
  | .parent, b => by cases b <;> first | exact isTrue rfl | exact isFalse nofun
  | .void, b => by cases b <;> first | exact isTrue rfl | exact isFalse nofun
  | .mixed, b => by cases b <;> first | exact isTrue rfl | exact isFalse nofun
  | .named m, .named n =>
    if h : m = n then isTrue (by rw [h]) else isFalse fun e => h (named.inj e)
  | .nullable a, .nullable b =>
    match decEq a b with
    | isTrue h => isTrue (by rw [h])
    | isFalse h => isFalse fun e => h (nullable.inj e)
  | .union as, .union bs =>
    match decEqList as bs with
    | isTrue h => isTrue (by rw [h])
    | isFalse h => isFalse fun e => h (union.inj e)
  | .intersection as, .intersection bs =>
    match decEqList as bs with
    | isTrue h => isTrue (by rw [h])
    | isFalse h => isFalse fun e => h (intersection.inj e)
  | .named _, .absent | .named _, .nullable _ | .named _, .union _ | .named _, .intersection _
  | .named _, .self | .named _, .static | .named _, .parent | .named _, .void
  | .named _, .mixed => isFalse nofun
  | .nullable _, .absent | .nullable _, .named _ | .nullable _, .union _
  | .nullable _, .intersection _ | .nullable _, .self | .nullable _, .static
  | .nullable _, .parent | .nullable _, .void | .nullable _, .mixed => isFalse nofun
  | .union _, .absent | .union _, .named _ | .union _, .nullable _ | .union _, .intersection _
  | .union _, .self | .union _, .static | .union _, .parent | .union _, .void
  | .union _, .mixed => isFalse nofun
  | .intersection _, .absent | .intersection _, .named _ | .intersection _, .nullable _
  | .intersection _, .union _ | .intersection _, .self | .intersection _, .static
  | .intersection _, .parent | .intersection _, .void | .intersection _, .mixed => isFalse nofun

def decEqList : (as bs : List TypeExpr) → Decidable (as = bs)
  | [], [] => isTrue rfl
  | [], _ :: _ => isFalse nofun
  | _ :: _, [] => isFalse nofun
  | a :: as, b :: bs =>
    match decEq a b, decEqList as bs with
    | isTrue h, isTrue h' => isTrue (by rw [h, h'])
    | isFalse h, _ => isFalse fun e => h (List.cons.inj e).1
    | _, isFalse h => isFalse fun e => h (List.cons.inj e).2

end

instance : DecidableEq TypeExpr := decEq

def scalarNames : List String :=
  ["int", "float", "string", "bool", "array", "iterable", "callable",
    "object", "null", "false", "true", "never"]

def isScalarName (lowered : String) : Bool :=
  scalarNames.contains lowered

end TypeExpr

end ContractCheck
