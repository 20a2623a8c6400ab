/-!
Tables that keep the order in which their keys were first entered.
-/
namespace ContractCheck

structure Table (κ α : Type) where
  entries : List (κ × α) := []

namespace Table

variable {κ α : Type} [DecidableEq κ]

def empty : Table κ α := {}

def find? (t : Table κ α) (k : κ) : Option α :=
  (t.entries.find? (·.1 = k)).map (·.2)

def contains (t : Table κ α) (k : κ) : Bool :=
  (t.find? k).isSome

def keys (t : Table κ α) : List κ :=
  t.entries.map (·.1)

def values (t : Table κ α) : List α :=
  t.entries.map (·.2)

def insertNew (t : Table κ α) (k : κ) (v : α) : Table κ α :=
  if t.contains k then t else ⟨t.entries ++ [(k, v)]⟩

def set (t : Table κ α) (k : κ) (v : α) : Table κ α :=
  if t.contains k then ⟨t.entries.map fun e => if e.1 = k then (k, v) else e⟩
  else ⟨t.entries ++ [(k, v)]⟩

def addMissing (t u : Table κ α) : Table κ α :=
  u.entries.foldl (fun acc e => acc.insertNew e.1 e.2) t

def update (t u : Table κ α) : Table κ α :=
  u.entries.foldl (fun acc e => acc.set e.1 e.2) t

end Table

end ContractCheck
