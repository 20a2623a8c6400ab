import ContractCheck.Hierarchy.Methods
import ContractCheck.Proofs.Table
import ContractCheck.Proofs.Text.LetterCase

/-!
Where the method that a call runs comes from, and what of the call decides it.
-/
namespace ContractCheck

open Text

namespace Registry

def Declares (r : Registry) (m : Method) : Prop :=
  ∃ name d, r.class? name = some d ∧ m ∈ d.methods.values

def declaredMethods (r : Registry) : List Method :=
  r.classes.values.flatMap (·.methods.values)

theorem Declares.mem {r : Registry} {m : Method} (h : r.Declares m) : m ∈ r.declaredMethods := by
  obtain ⟨_, d, hd, hm⟩ := h
  exact List.mem_flatMap.2 ⟨d, Table.mem_values_of_find? hd, hm⟩

theorem class?_congr (r : Registry) {a b : String} (h : lower a = lower b) :
    r.class? a = r.class? b := by
  rw [class?, class?, nameKey_congr h]

theorem declares_of_method? {r : Registry} {d : ClassDecl} {n name : String} {m : Method}
    (hd : r.class? n = some d) (hm : d.method? name = some m) : r.Declares m :=
  ⟨n, d, hd, Table.mem_values_of_find? hm⟩

theorem declares_of_traitMethodFrom {r : Registry} {name : String} {seen stack : List String}
    {m : Method} (h : r.traitMethodFrom name seen stack = some m) : r.Declares m := by
  fun_induction traitMethodFrom r name seen stack with
  | case1 => simp at h
  | case2 seen trait stack hd ih => exact ih h
  | case3 seen trait stack d hd hseen ih => exact ih h
  | case4 seen trait stack d hd hseen m' hm' =>
    cases h
    exact declares_of_method? hd hm'
  | case5 seen trait stack d hd hseen hnone ih => exact ih h

theorem traitMethodFrom_congr (r : Registry) {a b : String} (h : lower a = lower b)
    (seen stack : List String) : r.traitMethodFrom a seen stack = r.traitMethodFrom b seen stack := by
  fun_induction traitMethodFrom r a seen stack with
  | case1 => simp [traitMethodFrom]
  | case2 seen trait stack hd ih =>
    rw [traitMethodFrom, ih]
    split <;> simp_all
  | case3 seen trait stack d hd hseen ih =>
    rw [traitMethodFrom, ih]
    split <;> simp_all
  | case4 seen trait stack d hd hseen m hm =>
    have hm' : d.method? b = some m := by rw [← hm, ClassDecl.method?, ClassDecl.method?, h]
    rw [traitMethodFrom]
    split <;> simp_all
  | case5 seen trait stack d hd hseen hm ih =>
    have hm' : d.method? b = none := by rw [← hm, ClassDecl.method?, ClassDecl.method?, h]
    rw [traitMethodFrom]
    split <;> simp_all

theorem ownMethod?_congr (r : Registry) (d : ClassDecl) {a b : String} (h : lower a = lower b) :
    r.ownMethod? d a = r.ownMethod? d b := by
  rw [ownMethod?, ownMethod?, traitMethodFrom_congr r h, ClassDecl.method?, ClassDecl.method?, h]

theorem ownMethod?_cases {r : Registry} {d : ClassDecl} {name : String} {m : Method}
    (h : r.ownMethod? d name = some m) :
    d.method? name = some m ∨ r.traitMethodFrom name [lower d.name] (r.traitsOf d) = some m := by
  rw [ownMethod?] at h
  cases hm : d.method? name with
  | some m' =>
    rw [hm] at h
    exact Or.inl h
  | none =>
    rw [hm] at h
    exact Or.inr h

end Registry

namespace Builtin

/-- A built-in interface uses no traits, and its methods have no body. -/
theorem interface?_spec {name : String} {d : ClassDecl} (h : interface? name = some d) :
    d.traitRefs = [] ∧ ∀ m ∈ d.methods.values, m.body = none := by
  simp only [interface?, Option.bind_eq_bind, Option.bind_eq_some_iff, Option.pure_def,
    Option.some.injEq] at h
  obtain ⟨canonical, _, extended, _, rfl⟩ := h
  refine ⟨rfl, ?_⟩
  intro m hm
  simp only [Table.values, List.map_map, List.mem_map] at hm
  obtain ⟨e, _, rfl⟩ := hm
  rfl

end Builtin

namespace Hierarchy

theorem descriptor?_cases {r : Registry} {name : String} {d : ClassDecl}
    (h : r.descriptor? name = some d) :
    r.class? name = some d ∨ (r.class? name = none ∧ Builtin.interface? name = some d) := by
  rw [Registry.descriptor?] at h
  cases hc : r.class? name with
  | some c =>
    rw [hc] at h
    exact Or.inl h
  | none =>
    rw [hc] at h
    exact Or.inr ⟨rfl, h⟩

theorem descriptor?_of_class? {r : Registry} {name : String} {d : ClassDecl}
    (h : r.class? name = some d) : r.descriptor? name = some d := by
  simp [Registry.descriptor?, h]

/-- Found methods with a body are declared by registered class-likes. -/
theorem declares_of_ownMethod? {r : Registry} {n name : String} {d : ClassDecl} {m : Method}
    (hd : r.descriptor? n = some d) (hm : r.ownMethod? d name = some m) (hb : m.body.isSome) :
    r.Declares m := by
  rcases Registry.ownMethod?_cases hm with hm | hm
  · rcases descriptor?_cases hd with hd | ⟨_, hd⟩
    · exact Registry.declares_of_method? hd hm
    · have hnone := (Builtin.interface?_spec hd).2 m (Table.mem_values_of_find? hm)
      simp [hnone] at hb
  · exact Registry.declares_of_traitMethodFrom hm

theorem declares_of_inheritedMethod? {h : Hierarchy} {name : String} {names : List String}
    {m : Method} (hm : h.inheritedMethod? name names = some m) (hb : m.body.isSome) :
    h.registry.Declares m := by
  induction names with
  | nil => simp [inheritedMethod?] at hm
  | cons ancestor rest ih =>
    rw [inheritedMethod?] at hm
    split at hm
    · rename_i m' hfound
      cases hm
      obtain ⟨d, hd, hown⟩ := Option.bind_eq_some_iff.1 hfound
      exact declares_of_ownMethod? hd hown hb
    · exact ih hm

theorem declares_of_findMethod {h : Hierarchy} {n name : String} {d : ClassDecl} {m : Method}
    (hd : h.registry.class? n = some d) (hm : (h.findMethod d name).value = some m)
    (hb : m.body.isSome) : h.registry.Declares m := by
  rw [findMethod] at hm
  split at hm
  · rename_i m' hown
    cases hm
    exact declares_of_ownMethod? (descriptor?_of_class? hd) hown hb
  · exact declares_of_inheritedMethod? hm hb

theorem inheritedMethod?_congr (h : Hierarchy) {a b : String} (hab : lower a = lower b)
    (names : List String) : h.inheritedMethod? a names = h.inheritedMethod? b names := by
  induction names with
  | nil => rfl
  | cons ancestor rest ih =>
    simp only [inheritedMethod?, ih, fun d => Registry.ownMethod?_congr h.registry d hab]

/-- Letter case of the method's name does not matter to a call. -/
theorem findMethod_congr (h : Hierarchy) (d : ClassDecl) {a b : String} (hab : lower a = lower b) :
    h.findMethod d a = h.findMethod d b := by
  simp only [findMethod, Registry.ownMethod?_congr h.registry d hab, inheritedMethod?_congr h hab]

end Hierarchy

end ContractCheck
