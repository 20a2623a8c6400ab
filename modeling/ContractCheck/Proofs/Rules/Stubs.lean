import ContractCheck.Proofs.Exceptions.Announcements
import ContractCheck.Proofs.Hierarchy.NearestMethod
import ContractCheck.Proofs.Rules.Exceptions
import ContractCheck.Proofs.Session.LetterCase

/-!
Methods that only throw. Such a method is taken for a stub if the exception says that it is not
implemented. Main statement: the class hierarchy decides that, unless the exception has the short name
of the one that says so; then the name decides, also where it belongs to another class.
-/
namespace ContractCheck

open Text Syntax TracedOrCycle

namespace Syntax.Node

theorem throwsNew_iff {name : String} {n : Node} :
    n.ThrowsNew name ↔ (n.thrown.filter (·.isCreation)).bind (·.createdClass) = some name := by
  simp only [ThrowsNew, Option.bind_eq_some_iff, Option.filter_eq_some_iff, and_assoc]

instance (name : String) (n : Node) : Decidable (n.ThrowsNew name) :=
  decidable_of_iff _ throwsNew_iff.symm

/-- A statement that throws does not return. -/
theorem ThrowsNew.kind_ne {name : String} {n : Node} (h : n.ThrowsNew name) :
    n.kind ≠ "return_statement" := by
  obtain ⟨e, hthrown, -, -⟩ := h
  intro hkind
  have hthrow : n.isThrow = false := by simp [isThrow, hkind]
  simp [thrown, hkind, hthrow] at hthrown

end Syntax.Node

namespace Registry

variable {r : Registry}

/-- The owner of a method that a class-like has, of its own or from a trait, is registered. -/
theorem exists_owner (hr : r.WellKeyed) {name : String} {cls : ClassDecl}
    (hcls : r.class? name = some cls) {own : MethodTable} (hown : Gives (r.ownMethods cls) own)
    {m : Method} (hm : m ∈ own.values) :
    ∃ d, r.class? m.owner = some d ∧ m ∈ d.methods.values := by
  obtain ⟨key, d, hd, hdeclared⟩ := (wellNamed_ownMethods hr hcls hown).of_mem_values hm
  obtain ⟨k, hk⟩ := (d.methods.mem_values_iff m).1 hdeclared
  refine ⟨d, ?_, hdeclared⟩
  rw [((hr.read_of_find? hd).methods _ hk).2]
  exact class?_name hr hd

/-- Nothing nearer than the global namespace has the name. -/
def LeftGlobal (r : Registry) (scope : Scope) (name : String) : Prop :=
  importTarget? scope name = none ∧
    (scope.namespaceName ≠ "" → r.class? (scope.namespaceName ++ "\\" ++ name) = none)

end Registry

namespace Hierarchy

def ShortNameSays (written : String) : Prop :=
  sameName (lastSegment (dropBackslashes written)) notImplemented = true

instance (written : String) : Decidable (ShortNameSays written) :=
  inferInstanceAs (Decidable (_ = _))

/-- The exception that a name stands for in a scope is the one that says that a method is not
implemented, or descends from it. -/
def HierarchySays (h : Hierarchy) (scope : Scope) (written : String) : Prop :=
  h.Excuses [notImplemented] (h.registry.resolve scope written)

instance (h : Hierarchy) (scope : Scope) (written : String) :
    Decidable (h.HierarchySays scope written) :=
  inferInstanceAs (Decidable (h.Excuses _ _))

variable {h : Hierarchy} {m : Method} {cls : ClassDecl} {written : String}

/-- The exception's name is no keyword. -/
theorem resolve_eq_of_name (r : Registry) (scope : Scope)
    (hname : dropBackslashes (trimText written) = notImplemented) :
    r.resolve scope written =
      if written.toList.head? = some '\\' then notImplemented
      else r.resolvePlain scope notImplemented := by
  have hlower : lower notImplemented = "badmethodcallexception" := by decide +kernel
  have hscalar : TypeExpr.isScalarName "badmethodcallexception" = false := by decide
  simp [Registry.resolve, hname, hlower, hscalar]

theorem resolve_notImplemented (r : Registry) (scope : Scope) :
    r.resolve scope ("\\" ++ notImplemented) = notImplemented := by
  have hname : dropBackslashes (trimText ("\\" ++ notImplemented)) = notImplemented := by
    decide +kernel
  rw [resolve_eq_of_name r scope hname, if_pos (by decide)]

theorem lower_resolvePlain_of_leftGlobal {r : Registry} (hr : r.WellKeyed) {scope : Scope}
    (hglobal : r.LeftGlobal scope notImplemented) :
    lower (r.resolvePlain scope notImplemented) = lower notImplemented := by
  have hunslashed : Unslashed notImplemented := by decide
  have hcut : cutFirst '\\' notImplemented.toList = none := by decide
  rw [Registry.resolvePlain, if_neg hunslashed, hcut]
  simp only [hglobal.1, Registry.local_eq_none hglobal.2, Option.orElse_none]
  cases hd : r.class? notImplemented with
  | some d => exact (hr.lower_name_of_class? hd).trans (nameKey_of_unslashed hunslashed)
  | none =>
    have hspelling : Builtin.name? notImplemented = some notImplemented := by decide +kernel
    simp only [hspelling, Option.getD_some]

theorem lower_resolve_of_leftGlobal {r : Registry} (hr : r.WellKeyed) {scope : Scope}
    (hglobal : r.LeftGlobal scope notImplemented) :
    lower (r.resolve scope notImplemented) = lower notImplemented := by
  have hname : dropBackslashes (trimText notImplemented) = notImplemented := by decide +kernel
  rw [resolve_eq_of_name r scope hname, if_neg (by decide)]
  exact lower_resolvePlain_of_leftGlobal hr hglobal

/-- The exception's own name says so wherever it stands for the global class. -/
theorem hierarchySays_of_global (hr : h.registry.WellKeyed) {scope : Scope}
    (hwritten : sameName written ("\\" ++ notImplemented) = true ∨
      sameName written notImplemented = true ∧ h.registry.LeftGlobal scope notImplemented) :
    h.HierarchySays scope written := by
  refine ⟨notImplemented, List.mem_cons_self, .inl ?_⟩
  simp only [sameName, beq_iff_eq] at hwritten
  rcases hwritten with hslash | ⟨hplain, hglobal⟩
  · rw [h.registry.lower_resolve_congr scope hslash, resolve_notImplemented]
  · rw [h.registry.lower_resolve_congr scope hplain, lower_resolve_of_leftGlobal hr hglobal]

theorem saysNotImplemented_iff {d : ClassDecl} (hd : h.registry.class? m.owner = some d) :
    (h.saysNotImplemented m cls written).value = true ↔
      ShortNameSays written ∨ h.HierarchySays d.scope written := by
  rw [saysNotImplemented, ShortNameSays, HierarchySays]
  dsimp only
  split
  · rename_i hshort
    simp [hshort]
  · rename_i hshort
    rw [hd, Option.getD_some, isSubtype, Traced.value_anyM, List.any_cons, List.any_nil, Bool.or_false,
      resolve_notImplemented, isDescendant_iff_exists]
    simp only [Excuses, List.mem_singleton, exists_eq_left, hshort, Bool.false_eq_true, false_or]

theorem stub?_of_throwsNew {statement : Node} (hbody : Node.statements m.body = [statement])
    (hthrow : statement.ThrowsNew written) :
    (h.stub? m cls).value =
      if (h.saysNotImplemented m cls written).value then
        some (.throws (lastSegment (dropBackslashes written)))
      else none := by
  rw [stub?, hbody]
  dsimp only
  rw [Node.throwsNew_iff.1 hthrow, Traced.value_bind]
  cases (h.saysNotImplemented m cls written).value with
  | true => rfl
  | false => simp [hthrow.kind_ne]

/-- A method of a class that only throws a new object is a stub if the exception has the short name
of the one that says so, or if it is that one or descends from it; the name is read in the scope of
the owner. So the hierarchy alone decides unless the short name belongs to another class, and it does
not where the name is left to the global one. -/
theorem throwing_stub_iff (hr : h.registry.Indexed) {name : String}
    (hcls : h.registry.class? name = some cls) {own : MethodTable}
    (hown : Gives (h.registry.ownMethods cls) own) (hm : m ∈ own.values) {statement : Node}
    (hbody : Node.statements m.body = [statement]) (hthrow : statement.ThrowsNew written) :
    ∃ d, h.registry.class? m.owner = some d ∧ m ∈ d.methods.values ∧
      ((h.stub? m cls).value = some (.throws (lastSegment (dropBackslashes written))) ↔
        ShortNameSays written ∨ h.HierarchySays d.scope written) ∧
      ((h.stub? m cls).value = none ↔
        ¬ (ShortNameSays written ∨ h.HierarchySays d.scope written)) ∧
      (((h.stub? m cls).value = some (.throws (lastSegment (dropBackslashes written))) ↔
          h.HierarchySays d.scope written) ↔
        (ShortNameSays written → h.HierarchySays d.scope written)) ∧
      (sameName written ("\\" ++ notImplemented) = true ∨
          sameName written notImplemented = true ∧ h.registry.LeftGlobal d.scope notImplemented →
        h.HierarchySays d.scope written) := by
  obtain ⟨d, hd, hdeclared⟩ := Registry.exists_owner hr.wellKeyed hcls hown hm
  have hsays : (h.saysNotImplemented m cls written).value = true ↔
      ShortNameSays written ∨ h.HierarchySays d.scope written :=
    saysNotImplemented_iff hd
  have hthrows : (h.stub? m cls).value = some (.throws (lastSegment (dropBackslashes written))) ↔
      ShortNameSays written ∨ h.HierarchySays d.scope written := by
    rw [stub?_of_throwsNew hbody hthrow, ← hsays]
    simp
  have hnone : (h.stub? m cls).value = none ↔
      ¬ (ShortNameSays written ∨ h.HierarchySays d.scope written) := by
    rw [stub?_of_throwsNew hbody hthrow, ← hsays]
    simp
  refine ⟨d, hd, hdeclared, hthrows, hnone, ?_, hierarchySays_of_global hr.wellKeyed⟩
  rw [hthrows]
  exact or_iff_right_iff_imp

/-- A namespace with an exception of its own under the short name, and one that descends from the
global exception of that name. A class throws the one, and the other in a method from a trait. -/
def namesakes : Registry :=
  Sample.registry [
    Sample.node "namespace_definition" "" "" [Sample.node "namespace_name" "name" "App" []],
    Sample.classLike "class_declaration" "BadMethodCallException" ["\\Exception"] [] [],
    Sample.classLike "class_declaration" "Unsupported" ["\\BadMethodCallException"] [] [],
    Sample.classLike "trait_declaration" "T" [] []
      [Sample.method "g" [Sample.throwNew "Unsupported"]],
    Sample.classLike "class_declaration" "C" [] []
      [Sample.use "use T;", Sample.method "f" [Sample.throwNew "BadMethodCallException"]]]

theorem namesakes_facts :
    (∃ cls ∈ namesakes.class? "App\\C", ∃ own ∈ (namesakes.ownMethods cls).run.value.toOption,
      (∃ f ∈ own.values, f.owner = "App\\C" ∧ (Node.statements f.body).length = 1 ∧
        ∃ s ∈ Node.statements f.body, s.ThrowsNew "BadMethodCallException") ∧
      ∃ g ∈ own.values, g.owner = "App\\T" ∧ (Node.statements g.body).length = 1 ∧
        ∃ s ∈ Node.statements g.body, s.ThrowsNew "Unsupported") ∧
    (∀ d ∈ namesakes.class? "App\\C",
      ¬ (ofRegistry namesakes).HierarchySays d.scope "BadMethodCallException") ∧
    ∀ d ∈ namesakes.class? "App\\T", (ofRegistry namesakes).HierarchySays d.scope "Unsupported" := by
  decide +kernel

theorem throwing_stub_iff_namesakes :
    ∃ cls, namesakes.class? "App\\C" = some cls ∧ ∃ own, Gives (namesakes.ownMethods cls) own ∧
      (∃ f ∈ own.values, f.owner = "App\\C" ∧
        ((ofRegistry namesakes).stub? f cls).value = some (.throws "BadMethodCallException") ∧
        ¬ (ofRegistry namesakes).HierarchySays cls.scope "BadMethodCallException") ∧
      ∃ g ∈ own.values, g.owner = "App\\T" ∧
        ((ofRegistry namesakes).stub? g cls).value = some (.throws "Unsupported") := by
  obtain ⟨⟨cls, hcls, own, hown, ⟨f, hf, hfowner, hflength, s, hs, hfthrow⟩,
    ⟨g, hg, hgowner, hglength, t, ht, hgthrow⟩⟩, hborrowed, hdescends⟩ := namesakes_facts
  have hindexed : (ofRegistry namesakes).registry.Indexed := Sample.indexed_registry _
  have hown' : Gives (namesakes.ownMethods cls) own := (gives_iff_toOption _ _).2 hown
  have hsingle : ∀ {n : Node} {l : List Node}, n ∈ l → l.length = 1 → l = [n] := by
    intro n l hn hlength
    obtain ⟨x, rfl⟩ := List.length_eq_one_iff.1 hlength
    rw [List.mem_singleton.1 hn]
  obtain ⟨_, _, _, hfstub, _⟩ :=
    throwing_stub_iff hindexed hcls hown' hf (hsingle hs hflength) hfthrow
  obtain ⟨d, hd, _, hgstub, _⟩ :=
    throwing_stub_iff hindexed hcls hown' hg (hsingle ht hglength) hgthrow
  rw [hgowner] at hd
  exact ⟨cls, hcls, own, hown', ⟨f, hf, hfowner, hfstub.2 (.inl (by decide +kernel)),
    hborrowed cls hcls⟩, g, hg, hgowner, hgstub.2 (.inr (hdescends d hd))⟩

/-- The exception of the namespace does not descend from the global one of the same short name. Yet a
method that throws it is taken for a stub. -/
theorem namesake_taken_for_stub :
    ∃ cls ∈ namesakes.class? "App\\C", ∃ m ∈ cls.method? "f",
      (Node.statements m.body).length = 1 ∧
      (∃ s ∈ Node.statements m.body, s.ThrowsNew "BadMethodCallException") ∧
      namesakes.resolve cls.scope "BadMethodCallException" = "App\\BadMethodCallException" ∧
      namesakes.ancestors "App\\BadMethodCallException" =
        ["Exception", "Throwable", "Stringable"] ∧
      ((ofRegistry namesakes).stub? m cls).value.map Stub.description =
        some "a stub (throws BadMethodCallException)" := by
  decide +kernel

end Hierarchy

end ContractCheck
