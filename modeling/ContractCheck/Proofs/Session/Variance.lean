import ContractCheck.Proofs.Rules.Variance
import ContractCheck.Proofs.Session.TraitCycles

/-!
Types of trait methods in the check of a class. Exceptions of such a method are named in the scope of
the trait, its types in that of the class that uses it. Main statement: the check reports the faults
that the types have there. They are those that the types have in the scope of the trait, if all names
in them stand for the same in both.
-/
namespace ContractCheck

open Text TracedOrCycle

namespace Work

open Session

/-- A traversal finds what its steps find, one after the other. -/
theorem filter_gather {α β : Type} {f : α → Attempt (List β)} {P : Session → Prop} {p : β → Bool}
    {g : α → List β} {l : List α}
    (hstep : ∀ a ∈ l, ∀ s found t, P s → Yields (f a) s found t → P t ∧ found.filter p = g a)
    {s t : Session} {found : List β} (hs : P s) (h : Yields (gather f l) s found t) :
    P t ∧ found.filter p = l.flatMap g := by
  induction l generalizing s found with
  | nil =>
    obtain ⟨rfl, rfl⟩ := yields_pure h
    exact ⟨hs, rfl⟩
  | cons a l ih =>
    obtain ⟨first, u, hfirst, h⟩ := yields_bind h
    obtain ⟨more, v, hmore, h⟩ := yields_bind h
    obtain ⟨rfl, rfl⟩ := yields_pure h
    obtain ⟨hu, hfound⟩ := hstep a List.mem_cons_self s first u hs hfirst
    obtain ⟨hv, hrest⟩ := ih (fun b hb => hstep b (List.mem_cons_of_mem a hb)) hu hmore
    rw [List.filter_append, hfound, hrest, List.flatMap_cons]
    exact ⟨hv, rfl⟩

theorem value_of_ask {α : Type} {m : Memory} {question : Hierarchy → Traced α} {s t : Session}
    {a : α} (h : (ask m question).run s = (a, t)) : (question (s.hierarchy m)).value = a :=
  congrArg Prod.fst h

variable {s t u : Session} {found : List Violation}

theorem filter_applySubstitution (hs : s.Preserved t) {o : Override}
    {rule : SubstitutionRule × Nat} (h : Yields (liftM (applySubstitution o rule)) t found u) :
    s.Preserved u ∧ found.filter (!·.onExceptions) =
      ((s.hierarchy s.substitution.memory).typeFaults o o.cls.scope rule.1).map o.violation := by
  have hrun := yields_lift h
  have hpreserved := preserved_applySubstitution o rule t
  rw [hrun] at hpreserved
  refine ⟨hs.trans hpreserved, ?_⟩
  obtain ⟨rule, place⟩ := rule
  rw [run_applySubstitution] at hrun
  have hkeep : ∀ {vs : List Violation}, (∀ v ∈ vs, v.onExceptions = false) →
      vs.filter (!·.onExceptions) = vs := by
    intro vs hvs
    rw [List.filter_eq_self]
    intro v hv
    simp [hvs v hv]
  rw [← hs.hierarchy, ← hs.substitution]
  cases rule with
  | exceptions =>
    have hfound := value_of_ask hrun
    have hnone : found.filter (!·.onExceptions) = [] := by
      rw [List.filter_eq_nil_iff, ← hfound]
      intro v hv
      simp [Hierarchy.onExceptions_of_mem_exceptionViolations hv]
    rw [hnone]
    simp [Hierarchy.typeFaults]
  | returnType =>
    rw [← Hierarchy.value_returnViolations, ← value_of_ask hrun]
    exact hkeep fun v hv => Hierarchy.not_onExceptions_of_mem_returnViolations hv
  | parameterTypes =>
    rw [← Hierarchy.value_parameterViolations, ← value_of_ask hrun]
    exact hkeep fun v hv => Hierarchy.not_onExceptions_of_mem_parameterViolations hv

def typeViolations (s : Session) (o : Override) : List Violation :=
  s.substitution.rules.flatMap fun rule =>
    ((s.hierarchy s.substitution.memory).typeFaults o o.cls.scope rule).map o.violation

theorem filter_checkContract (hs : s.Preserved t) {cls contract : ClassDecl} {own : MethodTable}
    (h : Yields (checkContract cls own contract) t found u) :
    s.Preserved u ∧ found.filter (!·.onExceptions) =
      ((s.hierarchy .session).overridesAgainst cls own contract).flatMap (typeViolations s) := by
  obtain ⟨asked, v, hasked, h⟩ := yields_bind h
  obtain ⟨hgives, htv⟩ := preserved_of_attempt hasked
  have hv := hs.trans htv
  rw [hs.hierarchy] at hgives
  rw [Hierarchy.overridesAgainst_eq hgives]
  refine filter_gather (fun o _ a part b ha hb => ?_) hv (yields_get_bind_iff.1 h)
  obtain ⟨hb, hpart⟩ :=
    filter_gather (fun rule _ a part b ha hb => filter_applySubstitution ha hb) ha hb
  refine ⟨hb, ?_⟩
  rw [hpart, hv.substitution, typeViolations]
  nth_rewrite 2 [← List.zipIdx_map_fst 0 s.substitution.rules]
  rw [List.flatMap_map]

/-- The check reports on types what the rules find on one override after the other. -/
theorem filter_checkSubstitution {name : String} {cls : ClassDecl}
    (hcls : s.registry.class? name = some cls) (h : Yields (checkSubstitution name) s found t) :
    found.filter (!·.onExceptions) =
      ((s.hierarchy .session).overridesOf cls).flatMap (typeViolations s) := by
  obtain ⟨cls', _, hload, h⟩ := yields_bind h
  obtain ⟨hcls', rfl⟩ := yields_load hload
  obtain rfl : cls = cls' := Option.some.inj (hcls.symm.trans hcls')
  obtain ⟨own, u, hown, h⟩ := yields_bind h
  obtain ⟨hgives, hu⟩ := preserved_of_attempt hown
  obtain ⟨contracts, v, hcontracts, h⟩ := yields_bind h
  cases yields_lift hcontracts
  obtain ⟨violations, w, hviolations, h⟩ := yields_bind h
  obtain ⟨_, _, _, h⟩ := yields_bind h
  obtain ⟨rfl, _⟩ := yields_pure h
  rw [hu.hierarchy] at hviolations
  have hasked := hu.trans (preserved_ask .session (·.contracts cls) u)
  obtain ⟨_, hfound⟩ :=
    filter_gather (fun contract _ a part b ha hb => filter_checkContract ha hb) hasked hviolations
  rw [hfound, Hierarchy.overridesOf_eq hgives, List.flatMap_assoc]

/-- The types of a method are compared in the scope of the class, and mean the same in another scope
just if all names do. Then the method has the same faults there. In any case it has them there at the
places where a method of the class has them that restates the types. -/
structure ComparedInClass (h : Hierarchy) (o : Override) (scope : Scope) : Prop where
  names : ∀ type, h.registry.canonicalize o.cls.scope type = h.registry.canonicalize scope type ↔
    h.registry.SameNames o.cls.scope scope type.atoms
  same : (∀ type ∈ o.method.types, h.registry.SameNames o.cls.scope scope type.atoms) →
    ∀ rule, h.typeFaults o o.cls.scope rule = h.typeFaults o scope rule
  restated : ∀ m, h.registry.Restates scope o.cls.scope o.method m → ∀ rule,
    (h.typeFaults { o with method := m } o.cls.scope rule).map (·.place) =
      (h.typeFaults o scope rule).map (·.place)

/-- What the check reports on types are the faults that they have in the scope of the class, also
those of a trait's method, which has a scope of its own. -/
theorem trait_types_compared_in_class {name : String} {cls : ClassDecl}
    (hcls : s.registry.class? name = some cls) (h : Yields (checkSubstitution name) s found t) :
    found.filter (!·.onExceptions) =
      ((s.hierarchy .session).overridesOf cls).flatMap (typeViolations s) ∧
    ∀ o ∈ (s.hierarchy .session).overridesOf cls, ∀ trait,
      s.registry.class? o.method.owner = some trait → trait.kind = .trait →
        ComparedInClass (s.hierarchy s.substitution.memory) o
          (s.registry.methodScope o.method (some cls)) := by
  refine ⟨filter_checkSubstitution hcls h, ?_⟩
  intro o ho trait htrait hkind
  obtain ⟨rfl, _⟩ := (Hierarchy.mem_overridesOf_iff _ _ o).1 ho
  have hclass : o.cls.scope.className = (s.registry.methodScope o.method (some o.cls)).className := by
    rw [Registry.methodScope_of_trait htrait hkind]
    rfl
  have hnames := s.registry.canonicalize_eq_iff_sameNames hclass
  refine ⟨hnames, fun hsame rule => ?_, fun m hm rule => ?_⟩
  · exact Hierarchy.typeFaults_congr (fun type htype => (hnames type).2 (hsame type htype)) rule
  · exact (@Hierarchy.places_typeFaults _ o { o with method := m } _ _ rfl rfl hm rule).symm

def typedMethod (name type : String) : Syntax.Node :=
  Sample.node "method_declaration" "" ""
    [Sample.node "name" "name" name [], Sample.node "named_type" "return_type" type [],
      Sample.node "compound_statement" "body" "" []]

/-- A trait returns a class under the name by which it is imported. The class that uses the trait has
no such import, and its contract writes the full name. -/
def importedType : Session :=
  Sample.session [
    Sample.node "namespace_definition" "" "" [Sample.node "namespace_name" "name" "B" [],
      Sample.node "compound_statement" "body" "" [
        Sample.node "namespace_use_declaration" "" "use X\\Foo;" [],
        Sample.classLike "trait_declaration" "T" [] [] [typedMethod "f" "Foo"]]],
    Sample.node "namespace_definition" "" "" [
      Sample.node "compound_statement" "body" "" [
        Sample.classLike "interface_declaration" "I" [] [] [typedMethod "f" "\\X\\Foo"],
        Sample.classLike "class_declaration" "C" [] ["I"] [Sample.use "use \\B\\T;"]]]]

theorem trait_types_compared_in_class_imported :
    ∃ cls found t, importedType.registry.class? "C" = some cls ∧
      Yields (checkSubstitution "C") importedType found t ∧
      (found.filter (!·.onExceptions)).length = 1 ∧
      ∃ o ∈ (importedType.hierarchy .session).overridesOf cls, ∀ rule,
        (importedType.hierarchy .session).typeFaults
          { o with method := { o.method with returnType := .named "\\X\\Foo" } } cls.scope rule = [] := by
  have hread : ((checkSubstitution "C").run.run importedType).1.toOption.isSome = true ∧
      (importedType.registry.class? "C").any (fun cls =>
        (((importedType.hierarchy .session).overridesOf cls).flatMap
          (typeViolations importedType)).length == 1 &&
        ((importedType.hierarchy .session).overridesOf cls).any fun o =>
          (importedType.registry.class? o.method.owner).any (·.kind == .trait) &&
          importedType.registry.canonicalize (importedType.registry.methodScope o.method (some cls))
            o.method.returnType == .named "X\\Foo" &&
          importedType.registry.canonicalize cls.scope (.named "\\X\\Foo") == .named "X\\Foo" &&
          o.method.parameters.isEmpty &&
          [SubstitutionRule.exceptions, .returnType, .parameterTypes].all fun rule =>
            ((importedType.hierarchy .session).typeFaults o
              (importedType.registry.methodScope o.method (some cls)) rule).isEmpty) = true := by
    decide +kernel
  obtain ⟨hchecked, hread⟩ := hread
  obtain ⟨found, t, hyields⟩ := exists_yields_of_isSome hchecked
  cases hcls : importedType.registry.class? "C" with
  | none =>
    rw [hcls] at hread
    cases hread
  | some cls =>
    rw [hcls, Option.any_some, Bool.and_eq_true, List.any_eq_true] at hread
    obtain ⟨hone, o, ho, hread⟩ := hread
    simp only [Bool.and_eq_true, beq_iff_eq, Option.any_eq_true, List.isEmpty_iff,
      List.all_eq_true] at hread
    obtain ⟨⟨⟨⟨⟨trait, htrait, hkind⟩, hown⟩, hfull⟩, hparameters⟩, hnone⟩ := hread
    obtain ⟨hfound, hcompared⟩ := trait_types_compared_in_class hcls hyields
    obtain rfl := ((Hierarchy.mem_overridesOf_iff _ _ o).1 ho).1
    have hrestates : importedType.registry.Restates
        (importedType.registry.methodScope o.method (some o.cls)) o.cls.scope o.method
        { o.method with returnType := .named "\\X\\Foo" } := by
      refine ⟨hown.trans hfull.symm, ?_⟩
      simp [hparameters]
    refine ⟨o.cls, found, t, rfl, hyields, ?_, o, ho, fun rule => ?_⟩
    · rw [hfound]
      simpa using hone
    · have hplaces := (hcompared o ho trait htrait hkind).restated _ hrestates rule
      have hfits : (importedType.hierarchy importedType.substitution.memory).typeFaults o
          (importedType.registry.methodScope o.method (some o.cls)) rule = [] :=
        hnone rule (by cases rule <;> simp)
      rw [hfits, List.map_nil, List.map_eq_nil_iff] at hplaces
      exact hplaces

/-- The type fits in the scope of the trait, and is reported nevertheless. -/
theorem fitting_trait_type_reported :
    ∃ cls ∈ importedType.registry.class? "C", ∃ o ∈ (importedType.hierarchy .session).overridesOf cls,
      (∃ trait ∈ importedType.registry.class? o.method.owner, trait.kind = .trait) ∧
      ((importedType.hierarchy .session).typeSubtype o.method.returnType
        (importedType.registry.methodScope o.method (some cls)) o.contractMethod.returnType
        (o.contractOwner importedType.registry).scope).value = true ∧
      ∃ found ∈ ((checkSubstitution "C").run.run importedType).1.toOption,
        found.map (·.onExceptions) = [false] := by
  decide +kernel

end Work

end ContractCheck
