import ContractCheck.Proofs.Hierarchy.Ancestors
import Mathlib.Data.Option.Basic

/-!
Resolution gives full names: no backslash stands in front of what it gives. So the supertypes that
are found are compared by letter case alone, and descent of full names is reachability.
-/
namespace ContractCheck

open Text

structure Scope.Canonical (scope : Scope) : Prop where
  className : ∀ name ∈ scope.className, Unslashed name
  imports : ∀ e ∈ scope.imports.entries, Unslashed e.2

namespace Builtin

theorem unslashed_of_mem_known :
    ∀ e ∈ known, Unslashed e.2.1 ∧ ∀ s ∈ e.2.2, Unslashed s := by
  decide +kernel

theorem mem_known_of_lookup {key : String} {e : String × List String}
    (h : known.lookup key = some e) : (key, e) ∈ known := by
  obtain ⟨front, back, hknown, _⟩ := List.lookup_eq_some_iff.1 h
  rw [hknown]
  exact List.mem_append_right _ List.mem_cons_self

theorem unslashed_of_name? {name spelling : String} (h : name? name = some spelling) :
    Unslashed spelling := by
  obtain ⟨e, he, rfl⟩ := Option.map_eq_some_iff.1 h
  exact (unslashed_of_mem_known _ (mem_known_of_lookup he)).1

theorem unslashed_of_mem_supertypesOfKey {key s : String} (h : s ∈ supertypesOfKey key) :
    Unslashed s := by
  cases he : known.lookup key with
  | none => simp [supertypesOfKey, he] at h
  | some e =>
    have hs : s ∈ e.2 := by simpa [supertypesOfKey, he] using h
    exact (unslashed_of_mem_known _ (mem_known_of_lookup he)).2 s hs

end Builtin

namespace Registry

theorem unslashed_importTarget? {scope : Scope} (hs : scope.Canonical) {name target : String}
    (h : importTarget? scope name = some target) : Unslashed target ∧ target ≠ "" := by
  obtain ⟨hmap, hne⟩ := Option.filter_eq_some_iff.1 h
  obtain ⟨e, he, rfl⟩ := Option.map_eq_some_iff.1 hmap
  exact ⟨hs.imports e (List.mem_of_find?_eq_some he), by simpa using hne⟩

theorem unslashed_resolvePlain {r : Registry} (hr : r.WellKeyed) {scope : Scope}
    (hs : scope.Canonical) (name : String) : Unslashed (r.resolvePlain scope name) := by
  rw [resolvePlain]
  split
  · exact unslashed_dropBackslashes name
  · rename_i hname
    split
    · split
      · rename_i htarget
        obtain ⟨htarget, hne⟩ := unslashed_importTarget? hs htarget
        rw [String.append_assoc]
        exact unslashed_append htarget hne _
      · exact hname
    · split
      · rename_i htarget
        exact (unslashed_importTarget? hs htarget).1
      · simp only
        split
        · rename_i d hd
          rcases (Option.orElse_eq_some _ _ _).1 hd with hd | ⟨_, hd⟩
          · split at hd
            · cases hd
            · exact hr.unslashed_of_class? hd
          · exact hr.unslashed_of_class? hd
        · cases hb : Builtin.name? name with
          | none => exact hname
          | some spelling => exact Builtin.unslashed_of_name? hb

theorem unslashed_of_isScalarName {name : String} (h : TypeExpr.isScalarName name = true) :
    Unslashed name := by
  have hall : ∀ n ∈ TypeExpr.scalarNames, Unslashed n := by decide +kernel
  exact hall name (by simpa [TypeExpr.isScalarName] using h)

theorem unslashed_resolve {r : Registry} (hr : r.WellKeyed) {scope : Scope}
    (hs : scope.Canonical) (written : String) : Unslashed (r.resolve scope written) := by
  have hordinary : Unslashed (if written.toList.head? = some '\\' then
      dropBackslashes (trimText written)
      else r.resolvePlain scope (dropBackslashes (trimText written))) := by
    split
    · exact unslashed_dropBackslashes _
    · exact unslashed_resolvePlain hr hs _
  rw [resolve]
  split
  · exact unslashed_of_isScalarName ‹_›
  · split
    · cases hc : scope.className with
      | none => exact hordinary
      | some c => exact hs.className c hc
    · split
      · split
        · exact unslashed_resolvePlain hr hs _
        · exact hordinary
      · exact hordinary

theorem class?_name {r : Registry} (hr : r.WellKeyed) {name : String} {d : ClassDecl}
    (hd : r.class? name = some d) : r.class? d.name = some d := by
  rw [class?, nameKey_of_unslashed (hr.unslashed_of_class? hd), hr.lower_name_of_class? hd]
  exact hd

theorem canonical_scope_of_class? {r : Registry} (hr : r.WellKeyed) {name : String} {d : ClassDecl}
    (hd : r.class? name = some d) : d.scope.Canonical := by
  refine ⟨?_, (hr.read_of_find? hd).imports⟩
  intro c hc
  cases hc
  exact hr.unslashed_of_class? hd

theorem parentOf_eq_some_iff {r : Registry} {d : ClassDecl} {p : String} :
    r.parentOf d = some p ↔ r.parentTarget? d = some p ∧ p ≠ "" := by
  rw [parentOf, Option.filter_eq_some_iff, decide_eq_true_eq]

theorem unslashed_of_parentOf {r : Registry} (hr : r.WellKeyed) {name p : String} {d : ClassDecl}
    (hd : r.class? name = some d) (hp : r.parentOf d = some p) : Unslashed p := by
  obtain ⟨ref, -, rfl⟩ := Option.map_eq_some_iff.1 (parentOf_eq_some_iff.1 hp).1
  exact unslashed_resolve hr (canonical_scope_of_class? hr hd) ref

def bareWord (written : String) : String :=
  lower (dropBackslashes (trimText written))

def IsRelative (written : String) : Prop :=
  bareWord written ∈ ["self", "static", "parent"]

instance (written : String) : Decidable (IsRelative written) :=
  inferInstanceAs (Decidable (_ ∈ _))

theorem resolve_congr {r : Registry} {scope scope' : Scope}
    (hnamespace : scope.namespaceName = scope'.namespaceName)
    (himports : scope.imports = scope'.imports) {written : String} (hwritten : ¬ IsRelative written) :
    r.resolve scope written = r.resolve scope' written := by
  have hplain : ∀ name, r.resolvePlain scope name = r.resolvePlain scope' name := by
    intro name
    simp only [resolvePlain, importTarget?, hnamespace, himports]
  simp only [IsRelative, bareWord, List.mem_cons, List.not_mem_nil, or_false, not_or] at hwritten
  simp [resolve, hwritten, hplain]

theorem resolve_self {r : Registry} {scope : Scope} {c written : String}
    (hword : bareWord written ∈ ["self", "static"]) (hc : scope.className = some c) :
    r.resolve scope written = c := by
  have hscalar : TypeExpr.isScalarName (bareWord written) = false :=
    (show ∀ w ∈ ["self", "static"], TypeExpr.isScalarName w = false by decide) _ hword
  have hself : bareWord written = "self" ∨ bareWord written = "static" := by simpa using hword
  rw [bareWord] at hscalar hself
  simp [resolve, hscalar, hself, hc]

theorem dropBackslashes_slash {name : String} (hname : Unslashed name) :
    dropBackslashes ("\\" ++ name) = name := by
  have hdrop := dropBackslashes_of_unslashed hname
  rw [dropBackslashes] at hdrop ⊢
  rw [String.toList_append]
  simpa using hdrop

theorem resolve_parent {r : Registry} {scope : Scope} {p written : String}
    (hword : bareWord written = "parent") (hp : scope.parentRef = some ("\\" ++ p))
    (hname : Unslashed p) : r.resolve scope written = p := by
  have hscalar : TypeExpr.isScalarName "parent" = false := by decide
  rw [bareWord] at hword
  simp [resolve, hword, hscalar, hp, resolvePlain, dropBackslashes_slash hname]

/-- Without a parent the class around the name does not matter. -/
theorem resolve_orphan {r : Registry} {scope scope' : Scope} {written : String}
    (hword : bareWord written = "parent") (hnamespace : scope.namespaceName = scope'.namespaceName)
    (himports : scope.imports = scope'.imports) (hp : scope.parentRef = none)
    (hp' : scope'.parentRef = none) : r.resolve scope written = r.resolve scope' written := by
  have hscalar : TypeExpr.isScalarName "parent" = false := by decide
  rw [bareWord] at hword
  simp [resolve, hword, hscalar, hp, hp', resolvePlain, importTarget?, hnamespace, himports]

theorem unslashed_of_mem_directSupertypes {r : Registry} (hr : r.WellKeyed) {name s : String}
    (h : s ∈ r.directSupertypes name) : Unslashed s := by
  rw [directSupertypes, supertypesOfKey] at h
  split at h
  · exact Builtin.unslashed_of_mem_supertypesOfKey h
  · rename_i d hd
    have hscope : d.scope.Canonical := canonical_scope_of_class? hr hd
    rcases List.mem_append.1 h with h | h
    · rcases List.mem_append.1 h with h | h
      · exact unslashed_of_parentOf hr hd (Option.mem_toList.1 h)
      · obtain ⟨ref, _, rfl⟩ := List.mem_map.1 h
        exact unslashed_resolve hr hscope ref
    · split at h
      · rw [List.mem_singleton.1 h]
        decide +kernel
      · cases h

theorem unslashed_of_mem_ancestors {r : Registry} (hr : r.WellKeyed) {name n : String}
    (h : n ∈ r.ancestors name) : Unslashed n := by
  obtain ⟨m, hm⟩ := supertype_of_mem_ancestors h
  exact unslashed_of_mem_directSupertypes hr hm

/-- A full name is among the ancestors, in some letter case, if it is reached. -/
theorem exists_mem_ancestors_iff {r : Registry} (hr : r.WellKeyed) (name : String) {k : String} :
    (∃ n ∈ r.ancestors name, lower n = k) ↔
      k ≠ nameKey name ∧ Relation.ReflTransGen r.Extends (nameKey name) k := by
  rw [← mem_ancestors_iff, List.mem_map]
  apply exists_congr
  intro n
  apply and_congr_right
  intro hn
  rw [nameKey_of_unslashed (unslashed_of_mem_ancestors hr hn)]

end Registry

namespace Hierarchy

theorem isDescendant_iff_exists (h : Hierarchy) (a b : String) :
    (h.isDescendant a b).value = true ↔
      lower a = lower b ∨ ∃ n ∈ h.ancestorsOf a, lower n = lower b := by
  rw [isDescendant]
  by_cases hab : sameName a b = true
  · rw [if_pos hab]
    simpa [sameName] using Or.inl (by simpa [sameName] using hab)
  · rw [if_neg hab]
    have hne : lower a ≠ lower b := by simpa [sameName] using hab
    simp [ancestors, sameName, hne]

/-- Descent of full names is reachability over direct supertypes. -/
theorem isDescendant_iff {r : Registry} (hr : r.WellKeyed) {a : String} (ha : Unslashed a)
    (b : String) :
    ((ofRegistry r).isDescendant a b).value = true ↔
      Relation.ReflTransGen r.Extends (lower a) (lower b) := by
  rw [isDescendant_iff_exists]
  show lower a = lower b ∨ (∃ n ∈ r.ancestors a, lower n = lower b) ↔ _
  rw [Registry.exists_mem_ancestors_iff hr, nameKey_of_unslashed ha]
  by_cases hab : lower a = lower b
  · simp only [hab, true_or, true_iff]
    exact .refl
  · simp only [hab, false_or, ne_eq, Ne.symm hab, not_false_eq_true, true_and]

end Hierarchy

end ContractCheck
