import ContractCheck.Session.Basic
import Mathlib.Data.List.Forall2

/-!
Types that are compared across scopes. A type means the same in two scopes if the names in it do.
Main statement: two methods whose types mean the same, each in a scope of its own, have faults at the
same places.
-/
namespace ContractCheck

namespace TypeExpr

mutual

def atoms : TypeExpr → List TypeExpr
  | .nullable inner => atoms inner
  | .union members => atomsAll members
  | .intersection members => atomsAll members
  | t => [t]

def atomsAll : List TypeExpr → List TypeExpr
  | [] => []
  | t :: ts => atoms t ++ atomsAll ts

end

end TypeExpr

namespace Registry

/-- What is written stands for the same in two scopes: all names, and the parent class. -/
structure SameNames (r : Registry) (s s' : Scope) (written : List TypeExpr) : Prop where
  named : ∀ name, .named name ∈ written → r.resolve s name = r.resolve s' name
  parent : .parent ∈ written → r.canonicalize s .parent = r.canonicalize s' .parent

theorem sameNames_append_iff (r : Registry) (s s' : Scope) (as bs : List TypeExpr) :
    r.SameNames s s' (as ++ bs) ↔ r.SameNames s s' as ∧ r.SameNames s s' bs := by
  constructor
  · intro h
    refine ⟨⟨fun name hname => ?_, fun hparent => ?_⟩, ⟨fun name hname => ?_, fun hparent => ?_⟩⟩
    · exact h.named name (List.mem_append_left bs hname)
    · exact h.parent (List.mem_append_left bs hparent)
    · exact h.named name (List.mem_append_right as hname)
    · exact h.parent (List.mem_append_right as hparent)
  · intro h
    refine ⟨fun name hname => ?_, fun hparent => ?_⟩
    · exact (List.mem_append.1 hname).elim (h.1.named name) (h.2.named name)
    · exact (List.mem_append.1 hparent).elim h.1.parent h.2.parent

theorem sameNames_of_not_mem (r : Registry) (s s' : Scope) {t : TypeExpr}
    (hnamed : ∀ name, t ≠ .named name) (hparent : t ≠ .parent) : r.SameNames s s' [t] := by
  refine ⟨fun name hname => ?_, fun hp => ?_⟩
  · exact absurd (List.mem_singleton.1 hname).symm (hnamed name)
  · exact absurd (List.mem_singleton.1 hp).symm hparent

mutual

/-- In scopes of the same class a type means the same just if its names do. -/
theorem canonicalize_eq_iff_sameNames (r : Registry) {s s' : Scope}
    (hclass : s.className = s'.className) : (t : TypeExpr) →
    (r.canonicalize s t = r.canonicalize s' t ↔ r.SameNames s s' t.atoms)
  | .nullable inner => by
    simp [canonicalize, TypeExpr.atoms, canonicalize_eq_iff_sameNames r hclass inner]
  | .union members => by
    simp [canonicalize, TypeExpr.atoms, canonicalizeAll_eq_iff_sameNames r hclass members]
  | .intersection members => by
    simp [canonicalize, TypeExpr.atoms, canonicalizeAll_eq_iff_sameNames r hclass members]
  | .named name => by
    constructor
    · intro h
      refine ⟨fun n hn => ?_, fun hp => ?_⟩
      · rw [TypeExpr.named.inj (List.mem_singleton.1 hn)]
        exact TypeExpr.named.inj h
      · cases List.mem_singleton.1 hp
    · intro h
      rw [canonicalize, canonicalize, h.named name (List.mem_singleton.2 rfl)]
  | .parent => by
    constructor
    · intro h
      exact ⟨fun n hn => (by cases List.mem_singleton.1 hn), fun _ => h⟩
    · intro h
      exact h.parent (List.mem_singleton.2 rfl)
  | .self => iff_of_true (by rw [canonicalize, canonicalize, hclass])
      (r.sameNames_of_not_mem s s' (by simp) (by simp))
  | .static => iff_of_true (by rw [canonicalize, canonicalize, hclass])
      (r.sameNames_of_not_mem s s' (by simp) (by simp))
  | .absent | .void | .mixed =>
    iff_of_true rfl (r.sameNames_of_not_mem s s' (by simp) (by simp))

theorem canonicalizeAll_eq_iff_sameNames (r : Registry) {s s' : Scope}
    (hclass : s.className = s'.className) : (ts : List TypeExpr) →
    (r.canonicalizeAll s ts = r.canonicalizeAll s' ts ↔ r.SameNames s s' (TypeExpr.atomsAll ts))
  | [] => iff_of_true rfl ⟨fun _ h => (by cases h), fun h => (by cases h)⟩
  | t :: ts => by
    rw [canonicalizeAll, canonicalizeAll, TypeExpr.atomsAll, List.cons.injEq, sameNames_append_iff,
      canonicalize_eq_iff_sameNames r hclass t, canonicalizeAll_eq_iff_sameNames r hclass ts]

end

theorem canonicalize_eq_absent_iff (r : Registry) (s : Scope) (t : TypeExpr) :
    r.canonicalize s t = .absent ↔ t = .absent := by
  cases t with
  | self => cases hs : s.className <;> simp [canonicalize, hs]
  | static => cases hs : s.className <;> simp [canonicalize, hs]
  | parent => cases hs : s.parentRef <;> simp [canonicalize, hs]
  | _ => simp [canonicalize]

end Registry

def Method.types (m : Method) : List TypeExpr :=
  m.returnType :: m.parameters.map (·.type)

/-- The place of a type in a signature that a fault is about: 0 for the return type, else the number
of the parameter. -/
def SubstitutionFault.place : SubstitutionFault → Option Nat
  | .returnType _ _ => some 0
  | .parameterType position _ _ _ => some position
  | _ => none

structure Registry.Restates (r : Registry) (s s' : Scope) (m m' : Method) : Prop where
  returnType : r.canonicalize s m.returnType = r.canonicalize s' m'.returnType
  parameters : List.Forall₂ (fun p p' => r.canonicalize s p.type = r.canonicalize s' p'.type)
    m.parameters m'.parameters

namespace Hierarchy

variable (h : Hierarchy)

def returnFits (o : Override) (scope : Scope) : Bool :=
  o.method.returnType = .absent || o.contractMethod.returnType = .absent ||
    (h.typeSubtype o.method.returnType scope o.contractMethod.returnType
      (o.contractOwner h.registry).scope).value

def parameterFits (o : Override) (scope : Scope) (own expected : Parameter) : Bool :=
  own.type = .absent || expected.type = .absent ||
    (h.typeSubtype expected.type (o.contractOwner h.registry).scope own.type scope).value

def parameterFaults (o : Override) (scope : Scope) (position : Nat) :
    List (Parameter × Parameter) → List SubstitutionFault
  | [] => []
  | (own, expected) :: rest =>
    (if h.parameterFits o scope own expected then []
      else [.parameterType position own.name own.type expected.type]) ++
      parameterFaults o scope (position + 1) rest

def typeFaults (o : Override) (scope : Scope) (rule : SubstitutionRule) : List SubstitutionFault :=
  if Override.binds o.contractMethod o.contract then
    match rule with
    | .exceptions => []
    | .returnType =>
      if h.returnFits o scope then []
      else [.returnType o.method.returnType o.contractMethod.returnType]
    | .parameterTypes =>
      h.parameterFaults o scope 1 (o.method.parameters.zip o.contractMethod.parameters)
  else []

theorem value_returnViolations (o : Override) :
    (h.returnViolations o).value = (h.typeFaults o o.cls.scope .returnType).map o.violation := by
  rw [returnViolations, typeFaults, returnFits]
  by_cases hskip : o.method.returnType = .absent ∨ o.contractMethod.returnType = .absent
  · have hfits : (decide (o.method.returnType = .absent) ||
        decide (o.contractMethod.returnType = .absent)) = true := by simpa using hskip
    simp [Bool.or_assoc, hfits]
  · rw [not_or] at hskip
    cases hbinds : Override.binds o.contractMethod o.contract with
    | false => simp
    | true =>
      simp only [hskip.1, hskip.2, Bool.not_true, decide_false, Bool.or_self, Bool.false_eq_true,
        if_false, Traced.value_bind, Bool.false_or, if_true]
      cases (h.typeSubtype o.method.returnType o.cls.scope o.contractMethod.returnType
        (o.contractOwner h.registry).scope).value <;> rfl

theorem value_parameterViolationsFrom (o : Override) (position : Nat)
    (pairs : List (Parameter × Parameter)) :
    (h.parameterViolationsFrom o position pairs).value =
      (h.parameterFaults o o.cls.scope position pairs).map o.violation := by
  induction pairs generalizing position with
  | nil => rfl
  | cons pair pairs ih =>
    obtain ⟨own, expected⟩ := pair
    rw [parameterViolationsFrom, parameterFaults, List.map_append, ← ih, parameterFits]
    split
    · rename_i hskip
      simp [hskip]
    · rename_i hskip
      simp only [hskip, Traced.value_bind, Bool.false_or]
      cases (h.typeSubtype expected.type (o.contractOwner h.registry).scope own.type
        o.cls.scope).value <;> rfl

/-- Both rules on types take the types of a method in the scope of the class that is checked. -/
theorem value_parameterViolations (o : Override) :
    (h.parameterViolations o).value = (h.typeFaults o o.cls.scope .parameterTypes).map o.violation := by
  rw [parameterViolations, typeFaults]
  split
  · exact h.value_parameterViolationsFrom o 1 _
  · rfl

section

variable {h} {o o' : Override} {s s' : Scope}

theorem returnFits_congr (hexpected : o'.contractMethod = o.contractMethod)
    (hcontract : o'.contract = o.contract)
    (hown : h.registry.canonicalize s o.method.returnType =
      h.registry.canonicalize s' o'.method.returnType) : h.returnFits o s = h.returnFits o' s' := by
  have habsent : o.method.returnType = .absent ↔ o'.method.returnType = .absent := by
    rw [← h.registry.canonicalize_eq_absent_iff s, hown, h.registry.canonicalize_eq_absent_iff]
  simp only [returnFits, typeSubtype, Override.contractOwner, hexpected, hcontract, hown, habsent]

theorem parameterFits_congr (hexpected : o'.contractMethod = o.contractMethod)
    (hcontract : o'.contract = o.contract) {own own' : Parameter}
    (hown : h.registry.canonicalize s own.type = h.registry.canonicalize s' own'.type)
    (expected : Parameter) :
    h.parameterFits o s own expected = h.parameterFits o' s' own' expected := by
  have habsent : own.type = .absent ↔ own'.type = .absent := by
    rw [← h.registry.canonicalize_eq_absent_iff s, hown, h.registry.canonicalize_eq_absent_iff]
  simp only [parameterFits, typeSubtype, Override.contractOwner, hexpected, hcontract, hown, habsent]

/-- Parameters of the same meaning have faults at the same places. -/
theorem places_parameterFaults (hexpected : o'.contractMethod = o.contractMethod)
    (hcontract : o'.contract = o.contract) {own own' : List Parameter}
    (hown : List.Forall₂ (fun p p' => h.registry.canonicalize s p.type =
      h.registry.canonicalize s' p'.type) own own') (expected : List Parameter) (position : Nat) :
    (h.parameterFaults o s position (own.zip expected)).map (·.place) =
      (h.parameterFaults o' s' position (own'.zip expected)).map (·.place) := by
  induction hown generalizing expected position with
  | nil => rfl
  | @cons p p' own own' hp _ ih =>
    cases expected with
    | nil => rfl
    | cons e expected =>
      rw [List.zip_cons_cons, List.zip_cons_cons, parameterFaults, parameterFaults,
        parameterFits_congr hexpected hcontract hp e, List.map_append, List.map_append, ih]
      cases h.parameterFits o' s' p' e <;> rfl

/-- A method that restates the types of another one has faults at the same places. -/
theorem places_typeFaults (hexpected : o'.contractMethod = o.contractMethod)
    (hcontract : o'.contract = o.contract) (hm : h.registry.Restates s s' o.method o'.method)
    (rule : SubstitutionRule) :
    (h.typeFaults o s rule).map (·.place) = (h.typeFaults o' s' rule).map (·.place) := by
  cases hbinds : Override.binds o.contractMethod o.contract with
  | false => simp [typeFaults, hexpected, hcontract, hbinds]
  | true =>
    cases rule with
    | exceptions => simp [typeFaults]
    | returnType =>
      simp only [typeFaults, hexpected, hcontract, hbinds, if_true,
        returnFits_congr hexpected hcontract hm.returnType]
      cases h.returnFits o' s' <;> rfl
    | parameterTypes =>
      simp only [typeFaults, hexpected, hcontract, hbinds, if_true]
      exact places_parameterFaults hexpected hcontract hm.parameters _ 1

theorem parameterFaults_congr {pairs : List (Parameter × Parameter)}
    (htypes : ∀ pair ∈ pairs,
      h.registry.canonicalize s pair.1.type = h.registry.canonicalize s' pair.1.type)
    (position : Nat) :
    h.parameterFaults o s position pairs = h.parameterFaults o s' position pairs := by
  induction pairs generalizing position with
  | nil => rfl
  | cons pair pairs ih =>
    rw [parameterFaults, parameterFaults,
      parameterFits_congr rfl rfl (htypes pair List.mem_cons_self),
      ih fun p hp => htypes p (List.mem_cons_of_mem pair hp)]

/-- Where the types of a method mean the same in two scopes, it has the same faults in both. -/
theorem typeFaults_congr (htypes : ∀ t ∈ o.method.types,
    h.registry.canonicalize s t = h.registry.canonicalize s' t) (rule : SubstitutionRule) :
    h.typeFaults o s rule = h.typeFaults o s' rule := by
  cases rule with
  | exceptions => simp [typeFaults]
  | returnType => simp only [typeFaults, returnFits_congr rfl rfl (htypes _ List.mem_cons_self)]
  | parameterTypes =>
    simp only [typeFaults]
    rw [parameterFaults_congr fun pair hpair => ?_]
    exact htypes _ (List.mem_cons_of_mem _ (List.mem_map_of_mem (List.of_mem_zip hpair).1))

end

end Hierarchy

end ContractCheck
