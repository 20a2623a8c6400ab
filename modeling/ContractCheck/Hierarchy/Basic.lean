import ContractCheck.Hierarchy.Ancestors

/-!
The class hierarchy that questions are put to, and the trail that answering leaves. A question is a
function of the hierarchy alone; what it reports and whose ancestors it asks for is collected beside
the answer.
-/
namespace ContractCheck

inductive Event where
  | notice (n : Notice)
  | ancestorsAsked (name : String)

structure Traced (α : Type) where
  value : α
  events : List Event := []

namespace Traced

instance : Monad Traced where
  pure a := ⟨a, []⟩
  bind x f := ⟨(f x.value).value, x.events ++ (f x.value).events⟩

def report (n : Notice) : Traced Unit :=
  ⟨(), [.notice n]⟩

@[simp] theorem value_pure {α : Type} (a : α) : (pure a : Traced α).value = a := rfl

@[simp] theorem value_bind {α β : Type} (x : Traced α) (f : α → Traced β) :
    (x >>= f).value = (f x.value).value := rfl

end Traced

structure Hierarchy where
  registry : Registry
  ancestorsOf : String → List String

inductive TraitCycle where
  | found

abbrev TracedOrCycle := ExceptT TraitCycle Traced

namespace Hierarchy

open Text

def ofRegistry (r : Registry) : Hierarchy :=
  ⟨r, r.ancestors⟩

def ancestors (h : Hierarchy) (name : String) : Traced (List String) :=
  ⟨h.ancestorsOf name, [.ancestorsAsked name]⟩

def isDescendant (h : Hierarchy) (candidate ancestor : String) : Traced Bool :=
  if sameName candidate ancestor then pure true
  else do
    let names ← h.ancestors candidate
    return names.any (sameName · ancestor)

def isSubtype (h : Hierarchy) (scope : Scope) (candidate : String) (allowed : List String) :
    Traced Bool :=
  let canonical := h.registry.resolve scope candidate
  allowed.anyM fun a => h.isDescendant canonical (h.registry.resolve scope a)

def interfacesOf (h : Hierarchy) (d : ClassDecl) : Traced (List ClassDecl) := do
  let names ← h.ancestors d.name
  return (names.filterMap h.registry.descriptor?).filter (·.isInterface)

end Hierarchy

end ContractCheck
