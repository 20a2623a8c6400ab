import ContractCheck.Hierarchy.Basic

/-!
The methods of a class-like: those it declares, those of the traits it uses, and those of its
ancestors. In every case the first declaration of a name wins.
-/
namespace ContractCheck

namespace Registry

open Text

def traitsOf (r : Registry) (d : ClassDecl) : List String :=
  d.traitRefs.map (r.resolve d.scope)

def traitCount (r : Registry) (key : String) : Nat :=
  ((r.classes.find? key).map (·.traitRefs.length)).getD 0

def pendingTraits (r : Registry) (seen : List String) : Nat :=
  unseen r.traitCount seen r.classes.keys

theorem pendingTraits_cons_le {r : Registry} {seen : List String} {name : String} {d : ClassDecl}
    (hd : r.class? name = some d) (hs : nameKey name ∉ seen) :
    r.pendingTraits (nameKey name :: seen) + (r.traitsOf d).length ≤ r.pendingTraits seen := by
  have h := @unseen_cons_add_le r.traitCount _ _ _ (mem_keys_of_find? hd) hs
  simp only [class?] at hd
  simpa [pendingTraits, traitCount, traitsOf, hd] using h

def traitMethodFrom (r : Registry) (name : String) (seen : List String) :
    List String → Option Method
  | [] => none
  | trait :: stack =>
    match _h : r.class? trait with
    | none => r.traitMethodFrom name seen stack
    | some d =>
      if nameKey trait ∈ seen then r.traitMethodFrom name seen stack
      else
        match d.method? name with
        | some m => some m
        | none => r.traitMethodFrom name (nameKey trait :: seen) (r.traitsOf d ++ stack)
termination_by stack => r.pendingTraits seen + stack.length
decreasing_by
  · simp
  · simp
  · have h := pendingTraits_cons_le _h ‹_›
    simp only [List.length_append, List.length_cons]
    omega

def ownMethod? (r : Registry) (d : ClassDecl) (name : String) : Option Method :=
  (d.method? name).orElse fun _ => r.traitMethodFrom name [lower d.name] (r.traitsOf d)

def addTrait (r : Registry) (find : ClassDecl → TracedOrCycle MethodTable) (d : ClassDecl)
    (methods : MethodTable) (ref : String) : TracedOrCycle MethodTable :=
  match r.lookup d.scope ref with
  | none => do
    Traced.report (.unknownTrait ref d.name)
    return methods
  | some trait => do
    let more ← find trait
    return methods.addMissing more

def ownMethodsWithin (r : Registry) : Nat → ClassDecl → TracedOrCycle MethodTable
  | 0, _ => throw .found
  | depth + 1, d => d.traitRefs.foldlM (r.addTrait (r.ownMethodsWithin depth) d) d.methods

/-- The methods that a class-like declares or takes from traits. More traits inside each other than
are registered can only be a cycle. -/
def ownMethods (r : Registry) (d : ClassDecl) : TracedOrCycle MethodTable :=
  r.ownMethodsWithin (r.classes.entries.length + 1) d

end Registry

namespace Hierarchy

def inheritedMethod? (h : Hierarchy) (name : String) : List String → Option Method
  | [] => none
  | ancestor :: rest =>
    match (h.registry.descriptor? ancestor).bind (h.registry.ownMethod? · name) with
    | some m => some m
    | none => h.inheritedMethod? name rest

def findMethod (h : Hierarchy) (d : ClassDecl) (name : String) : Traced (Option Method) :=
  match h.registry.ownMethod? d name with
  | some m => pure (some m)
  | none => do
    let names ← h.ancestors d.name
    return h.inheritedMethod? name names

def methodsOf (h : Hierarchy) (d : ClassDecl) : TracedOrCycle (List Method) := do
  let own ← h.registry.ownMethods d
  let names ← h.ancestors d.name
  let table ← (names.filterMap h.registry.descriptor?).foldlM (fun methods ancestor => do
    let more ← h.registry.ownMethods ancestor
    return methods.addMissing more) own
  return table.values

end Hierarchy

end ContractCheck
