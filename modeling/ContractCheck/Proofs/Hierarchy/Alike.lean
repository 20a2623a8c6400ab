import ContractCheck.Hierarchy.Subtype
import ContractCheck.Proofs.Registry.Order

/-!
Questions see a registry only through what it looks up. Registries that look up the same class-likes
resolve the same names, and have the same ancestors, methods and subtypes.
-/
namespace ContractCheck

open Text

namespace Registry.Alike

variable {r r' : Registry} (h : r.Alike r')

include h

theorem class?_eq : r.class? = r'.class? := by
  funext name
  exact h.find (nameKey name)

theorem descriptor?_eq : r.descriptor? = r'.descriptor? := by
  funext name
  simp only [descriptor?, h.class?_eq]

theorem isKnown_eq : r.isKnown = r'.isKnown := by
  funext name
  simp only [isKnown, hasClass, h.class?_eq]

theorem resolvePlain_eq : r.resolvePlain = r'.resolvePlain := by
  funext scope name
  simp only [resolvePlain, h.class?_eq]

theorem resolve_eq : r.resolve = r'.resolve := by
  funext scope name
  simp only [resolve, h.resolvePlain_eq]

theorem lookup_eq : r.lookup = r'.lookup := by
  funext scope name
  simp only [lookup, h.class?_eq, h.resolve_eq]

theorem parentOf_eq : r.parentOf = r'.parentOf := by
  funext d
  simp only [parentOf, parentTarget?, h.resolve_eq]

theorem traitsOf_eq : r.traitsOf = r'.traitsOf := by
  funext d
  simp only [traitsOf, h.resolve_eq]

theorem directSupertypes_eq : r.directSupertypes = r'.directSupertypes := by
  funext name
  simp only [directSupertypes, supertypesOfKey, h.find, h.parentOf_eq, h.resolve_eq]

theorem ancestorsFrom_eq (seen queue : List String) :
    r.ancestorsFrom seen queue = r'.ancestorsFrom seen queue := by
  fun_induction ancestorsFrom r seen queue with
  | case1 => rw [ancestorsFrom]
  | case2 seen name queue hs ih => rw [ancestorsFrom, if_pos hs, ih]
  | case3 seen name queue hs ih => rw [ancestorsFrom, if_neg hs, ih, h.directSupertypes_eq]

theorem ancestors_eq : r.ancestors = r'.ancestors := by
  funext name
  rw [ancestors, ancestors, h.ancestorsFrom_eq, h.directSupertypes_eq]

theorem traitMethodFrom_eq (name : String) (seen stack : List String) :
    r.traitMethodFrom name seen stack = r'.traitMethodFrom name seen stack := by
  have hclass := h.class?_eq
  fun_induction traitMethodFrom r name seen stack with
  | case1 => rw [traitMethodFrom]
  | case2 seen trait stack hd ih =>
    rw [hclass] at hd
    rw [traitMethodFrom, ih]
    split <;> simp_all
  | case3 seen trait stack d hd hseen ih =>
    rw [hclass] at hd
    rw [traitMethodFrom, ih]
    split <;> simp_all
  | case4 seen trait stack d hd hseen m hm =>
    rw [hclass] at hd
    rw [traitMethodFrom]
    split <;> simp_all
  | case5 seen trait stack d hd hseen hm ih =>
    rw [hclass] at hd
    rw [ih, h.traitsOf_eq]
    conv => rhs; rw [traitMethodFrom]
    split <;> simp_all

theorem ownMethod?_eq : r.ownMethod? = r'.ownMethod? := by
  funext d name
  simp only [ownMethod?, h.traitMethodFrom_eq, h.traitsOf_eq]

theorem ownMethodsWithin_eq (depth : Nat) (d : ClassDecl) :
    r.ownMethodsWithin depth d = r'.ownMethodsWithin depth d := by
  induction depth generalizing d with
  | zero => rfl
  | succ depth ih =>
    have hstep : r.addTrait (r.ownMethodsWithin depth) =
        r'.addTrait (r'.ownMethodsWithin depth) := by
      funext d methods ref
      simp only [addTrait, h.lookup_eq, ih]
    rw [ownMethodsWithin, ownMethodsWithin, hstep]

theorem ownMethods_eq : r.ownMethods = r'.ownMethods := by
  funext d
  rw [ownMethods, ownMethods, h.count, h.ownMethodsWithin_eq]

omit h

mutual

theorem canonicalize_eq (h : r.Alike r') (scope : Scope) :
    (t : TypeExpr) → r.canonicalize scope t = r'.canonicalize scope t
  | .named name => by rw [canonicalize, canonicalize, h.resolve_eq]
  | .parent => by simp only [canonicalize, h.resolvePlain_eq]
  | .nullable inner => by rw [canonicalize, canonicalize, canonicalize_eq h scope inner]
  | .union members => by rw [canonicalize, canonicalize, canonicalizeAll_eq h scope members]
  | .intersection members => by rw [canonicalize, canonicalize, canonicalizeAll_eq h scope members]
  | .absent | .self | .static | .void | .mixed => by simp only [canonicalize]

theorem canonicalizeAll_eq (h : r.Alike r') (scope : Scope) :
    (ts : List TypeExpr) → r.canonicalizeAll scope ts = r'.canonicalizeAll scope ts
  | [] => rfl
  | t :: ts => by
    rw [canonicalizeAll, canonicalizeAll, canonicalize_eq h scope t, canonicalizeAll_eq h scope ts]

end

end Registry.Alike

namespace Hierarchy

structure Alike (h h' : Hierarchy) : Prop where
  registry : h.registry.Alike h'.registry
  ancestorsOf : h.ancestorsOf = h'.ancestorsOf

theorem alike_ofRegistry {r r' : Registry} (h : r.Alike r') :
    (ofRegistry r).Alike (ofRegistry r') :=
  ⟨h, h.ancestors_eq⟩

namespace Alike

variable {h h' : Hierarchy} (hh : h.Alike h')

include hh

theorem ancestors_eq : h.ancestors = h'.ancestors := by
  funext name
  simp only [ancestors, hh.ancestorsOf]

theorem isDescendant_eq : h.isDescendant = h'.isDescendant := by
  funext candidate ancestor
  simp only [isDescendant, hh.ancestors_eq]

theorem isSubtype_eq : h.isSubtype = h'.isSubtype := by
  funext scope candidate allowed
  simp only [isSubtype, hh.isDescendant_eq, hh.registry.resolve_eq]

theorem interfacesOf_eq : h.interfacesOf = h'.interfacesOf := by
  funext d
  simp only [interfacesOf, hh.ancestors_eq, hh.registry.descriptor?_eq]

theorem inheritedMethod?_eq (name : String) (names : List String) :
    h.inheritedMethod? name names = h'.inheritedMethod? name names := by
  induction names with
  | nil => rfl
  | cons ancestor rest ih =>
    simp only [inheritedMethod?, hh.registry.descriptor?_eq, hh.registry.ownMethod?_eq, ih]

theorem findMethod_eq : h.findMethod = h'.findMethod := by
  funext d name
  simp only [findMethod, hh.registry.ownMethod?_eq, hh.ancestors_eq, hh.inheritedMethod?_eq]

theorem methodsOf_eq : h.methodsOf = h'.methodsOf := by
  funext d
  simp only [methodsOf, hh.registry.ownMethods_eq, hh.ancestors_eq, hh.registry.descriptor?_eq]

theorem namedSubtype_eq : h.namedSubtype = h'.namedSubtype := by
  funext candidate target
  simp only [namedSubtype, hh.registry.isKnown_eq, hh.isDescendant_eq]

omit hh

mutual

theorem subtype_eq (hh : h.Alike h') (c t : TypeExpr) : h.subtype c t = h'.subtype c t := by
  rw [subtype.eq_def h, subtype.eq_def h']
  by_cases hct : c = t
  · rw [if_pos hct, if_pos hct]
  · rw [if_neg hct, if_neg hct]
    split
    · exact everySubtype_eq hh _ t
    · congr 3
      split
      · exact subtypeOfSome_eq hh c _
      · exact subtypeOfEvery_eq hh c _
      · split
        · exact someSubtype_eq hh _ t
        · rw [hh.namedSubtype_eq]
        · rfl
termination_by sizeOf c + sizeOf t

theorem everySubtype_eq (hh : h.Alike h') (cs : List TypeExpr) (t : TypeExpr) :
    h.everySubtype cs t = h'.everySubtype cs t := by
  cases cs with
  | nil => rw [everySubtype, everySubtype]
  | cons c cs => rw [everySubtype, everySubtype, subtype_eq hh c t, everySubtype_eq hh cs t]
termination_by sizeOf cs + sizeOf t

theorem someSubtype_eq (hh : h.Alike h') (cs : List TypeExpr) (t : TypeExpr) :
    h.someSubtype cs t = h'.someSubtype cs t := by
  cases cs with
  | nil => rw [someSubtype, someSubtype]
  | cons c cs => rw [someSubtype, someSubtype, subtype_eq hh c t, someSubtype_eq hh cs t]
termination_by sizeOf cs + sizeOf t

theorem subtypeOfSome_eq (hh : h.Alike h') (c : TypeExpr) (ts : List TypeExpr) :
    h.subtypeOfSome c ts = h'.subtypeOfSome c ts := by
  cases ts with
  | nil => rw [subtypeOfSome, subtypeOfSome]
  | cons t ts => rw [subtypeOfSome, subtypeOfSome, subtype_eq hh c t, subtypeOfSome_eq hh c ts]
termination_by sizeOf c + sizeOf ts

theorem subtypeOfEvery_eq (hh : h.Alike h') (c : TypeExpr) (ts : List TypeExpr) :
    h.subtypeOfEvery c ts = h'.subtypeOfEvery c ts := by
  cases ts with
  | nil => rw [subtypeOfEvery, subtypeOfEvery]
  | cons t ts => rw [subtypeOfEvery, subtypeOfEvery, subtype_eq hh c t, subtypeOfEvery_eq hh c ts]
termination_by sizeOf c + sizeOf ts

end

theorem typeSubtype_eq (hh : h.Alike h') : h.typeSubtype = h'.typeSubtype := by
  funext candidate candidateScope target targetScope
  rw [typeSubtype, typeSubtype, hh.subtype_eq, hh.registry.canonicalize_eq,
    hh.registry.canonicalize_eq]

end Alike

end Hierarchy

end ContractCheck
