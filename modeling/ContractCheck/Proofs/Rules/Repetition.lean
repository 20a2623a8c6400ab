import ContractCheck.Proofs.Hierarchy.NearestMethod
import ContractCheck.Proofs.Hierarchy.NormalForm
import ContractCheck.Proofs.Session.Variance

/-!
Return types that are written as the contract writes them. On the two sides `self` and `static` are
different classes, the one below the other. Main statement: such a type is never reported. That no
class-like is called like a scalar type is left to the grammar, which reserves these words.
-/
namespace ContractCheck

open Text

namespace TypeExpr

inductive Word : TypeExpr → Prop
  | named (name : String) : Word (.named name)
  | self : Word .self
  | static : Word .static

/-- A type that is put together from words: intersections of words, and question marks and unions
around these in any depth. -/
inductive Combined : TypeExpr → Prop
  | word {t : TypeExpr} (h : t.Word) : Combined t
  | nullable {t : TypeExpr} (h : Combined t) : Combined (.nullable t)
  | intersection {ms : List TypeExpr} (h : ∀ m ∈ ms, m.Word) : Combined (.intersection ms)
  | union {ms : List TypeExpr} (h : ∀ m ∈ ms, Combined m) : Combined (.union ms)

/-- A return type that does not mention `parent`; `void` and `mixed` only stand alone. -/
inductive Returnable : TypeExpr → Prop
  | void : Returnable .void
  | mixed : Returnable .mixed
  | combined {t : TypeExpr} (h : t.Combined) : Returnable t

def MentionsClass (t : TypeExpr) : Prop :=
  .self ∈ t.atoms ∨ .static ∈ t.atoms

theorem mem_atomsAll_iff (a : TypeExpr) (ms : List TypeExpr) :
    a ∈ atomsAll ms ↔ ∃ m ∈ ms, a ∈ m.atoms := by
  induction ms with
  | nil => simp [atomsAll]
  | cons m ms ih => simp [atomsAll, ih]

theorem Word.atoms_eq {t : TypeExpr} (h : t.Word) : t.atoms = [t] := by
  cases h <;> rfl

theorem Combined.word_of_mem_atoms {t a : TypeExpr} (h : t.Combined) (ha : a ∈ t.atoms) :
    a.Word := by
  induction h with
  | word h =>
    rw [h.atoms_eq, List.mem_singleton] at ha
    exact ha ▸ h
  | nullable _ ih => exact ih ha
  | @intersection ms h =>
    obtain ⟨m, hm, ha⟩ := (mem_atomsAll_iff a ms).1 ha
    rw [(h m hm).atoms_eq, List.mem_singleton] at ha
    exact ha ▸ h m hm
  | @union ms _ ih =>
    obtain ⟨m, hm, ha⟩ := (mem_atomsAll_iff a ms).1 ha
    exact ih m hm ha

end TypeExpr

open TypeExpr

namespace Registry

/-- No class-like is called like a scalar type. In sources that can be parsed none is: these words
are reserved. -/
def AvoidsScalarNames (r : Registry) : Prop :=
  ∀ d ∈ r.classes.values, isScalarName (lower d.name) = false

instance (r : Registry) : Decidable r.AvoidsScalarNames :=
  inferInstanceAs (Decidable (∀ _ ∈ _, _))

theorem canonicalize_self (r : Registry) (d : ClassDecl) :
    r.canonicalize d.scope .self = .named d.name := by
  rw [canonicalize]
  rfl

theorem canonicalize_static (r : Registry) (d : ClassDecl) :
    r.canonicalize d.scope .static = .named d.name := by
  rw [canonicalize]
  rfl

theorem exists_canonicalize_word (r : Registry) (d : ClassDecl) {t : TypeExpr} (ht : t.Word) :
    ∃ n, r.canonicalize d.scope t = .named n := by
  cases ht with
  | named name => exact ⟨r.resolve d.scope name, by rw [canonicalize]⟩
  | self => exact ⟨d.name, r.canonicalize_self d⟩
  | static => exact ⟨d.name, r.canonicalize_static d⟩

theorem canonicalize_intersection (r : Registry) (scope : Scope) (ms : List TypeExpr) :
    r.canonicalize scope (.intersection ms) = .intersection (ms.map (r.canonicalize scope)) := by
  rw [canonicalize, canonicalizeAll_eq_map]

end Registry

namespace Hierarchy

open Registry (canonicalize_union canonicalize_nullable canonicalize_intersection
  exists_canonicalize_word canonicalize_self canonicalize_static)

/-- A class is below one that it descends from. -/
theorem named_sub_named_of_above {r : Registry} (hr : r.WellKeyed) (hreserved : r.AvoidsScalarNames)
    {c owner : ClassDecl} {name ownerName : String} (hc : r.class? name = some c)
    (howner : r.class? ownerName = some owner)
    (habove : ∃ a ∈ r.ancestors c.name, lower a = lower owner.name) :
    (ofRegistry r).Sub (.named c.name) (.named owner.name) := by
  have hclass := hreserved c (Table.mem_values_of_find? hc)
  have hcontract := hreserved owner (Table.mem_values_of_find? howner)
  have hnever : c.name ≠ "never" := by
    intro h
    rw [h] at hclass
    exact absurd hclass (by decide +kernel)
  have hfound : r.class? c.name = some c := Registry.class?_name hr hc
  have hknown : r.isKnown c.name = true := by simp [Registry.isKnown, Registry.hasClass, hfound]
  have hdescends := ((Registry.exists_mem_ancestors_iff hr c.name).1 habove).2
  have hunslashed := hr.unslashed_of_class? hc
  rw [nameKey_of_unslashed hunslashed] at hdescends
  have hatomic : (named owner.name).Atomic := ⟨by simp, by simp, by simp, by simp⟩
  rw [named_sub_iff hr hunslashed hnever hatomic]
  exact ⟨owner.name, rfl, .descends ⟨hclass, hknown⟩ hdescends hcontract⟩

section

variable {h : Hierarchy} {c owner : ClassDecl}

def Narrows (h : Hierarchy) (c owner : ClassDecl) (t : TypeExpr) : Prop :=
  ∀ a ∈ t.atoms, h.Sub (h.registry.canonicalize c.scope a) (h.registry.canonicalize owner.scope a)

/-- An intersection of words is below the one that the same words make in another class. -/
theorem sub_intersection_words {ms : List TypeExpr} (hms : ∀ m ∈ ms, m.Word)
    (hnarrows : h.Narrows c owner (.intersection ms)) :
    h.Sub (.intersection (ms.map (h.registry.canonicalize c.scope)))
      (.intersection (ms.map (h.registry.canonicalize owner.scope))) := by
  rw [h.sub_intersection_iff (single_intersection _)]
  refine Or.inr fun t ht => ?_
  obtain ⟨m, hm, rfl⟩ := List.mem_map.1 ht
  obtain ⟨n, hn⟩ := exists_canonicalize_word h.registry owner (hms m hm)
  have hatomic : (h.registry.canonicalize owner.scope m).Atomic := by
    rw [hn]
    exact ⟨by simp, by simp, by simp, by simp⟩
  have hmem : m ∈ (intersection ms).atoms := by
    rw [atoms, mem_atomsAll_iff]
    exact ⟨m, hm, by simp [(hms m hm).atoms_eq]⟩
  rw [h.intersection_sub_iff _ hatomic]
  exact ⟨_, List.mem_map_of_mem hm, hnarrows m hmem⟩

/-- Each alternative of a type has its counterpart in another class, and is below it. -/
theorem exists_alternative {t : TypeExpr} (ht : t.Combined) (hnarrows : h.Narrows c owner t) :
    ∀ a ∈ (h.registry.canonicalize c.scope t).flat, a.Joinable ∧
      ∃ b ∈ (h.registry.canonicalize owner.scope t).flat, h.Sub a b := by
  -- an intersection is one alternative as a whole, so only question marks and unions recurse
  induction ht with
  | @word t ht =>
    obtain ⟨m, hm⟩ := exists_canonicalize_word h.registry c ht
    obtain ⟨n, hn⟩ := exists_canonicalize_word h.registry owner ht
    have hsub := hnarrows t (by simp [ht.atoms_eq])
    rw [hm, hn] at hsub
    simp only [hm, hn, flat, List.mem_singleton]
    intro a ha
    exact ⟨ha ▸ joinable_named m, .named n, rfl, ha ▸ hsub⟩
  | @nullable t ht ih =>
    intro a ha
    rw [canonicalize_nullable, mem_flat_union_iff] at ha
    simp only [canonicalize_nullable, mem_flat_union_iff, List.mem_cons, List.not_mem_nil, or_false,
      exists_eq_or_imp, exists_eq_left] at ha ⊢
    cases ha with
    | inl ha =>
      obtain ⟨hjoinable, b, hb, hsub⟩ := ih hnarrows a ha
      exact ⟨hjoinable, b, Or.inl hb, hsub⟩
    | inr ha =>
      have hnull : a = .named "null" := by simpa [flat] using ha
      exact ⟨hnull ▸ joinable_named "null", a, Or.inr ha, h.sub_refl a⟩
  | @intersection ms hms =>
    intro a ha
    rw [canonicalize_intersection, flat_eq_self (by simp), List.mem_singleton] at ha
    refine ⟨?_, .intersection (ms.map (h.registry.canonicalize owner.scope)), ?_, ?_⟩
    · rw [ha]
      apply joinable_intersection
      intro m hm
      obtain ⟨x, hx, rfl⟩ := List.mem_map.1 hm
      exact exists_canonicalize_word h.registry c (hms x hx)
    · rw [canonicalize_intersection]
      simp [flat]
    · rw [ha]
      exact sub_intersection_words hms hnarrows
  | @union ms _ ih =>
    intro a ha
    rw [canonicalize_union, mem_flat_union_iff] at ha
    obtain ⟨x, hx, ha⟩ := ha
    obtain ⟨m, hm, rfl⟩ := List.mem_map.1 hx
    have hmember : h.Narrows c owner m := fun a ha =>
      hnarrows a ((mem_atomsAll_iff a ms).2 ⟨m, hm, ha⟩)
    obtain ⟨hjoinable, b, hb, hsub⟩ := ih m hm hmember a ha
    refine ⟨hjoinable, b, ?_, hsub⟩
    rw [canonicalize_union, mem_flat_union_iff]
    exact ⟨_, List.mem_map_of_mem hm, hb⟩

/-- A type whose words get smaller gets smaller. -/
theorem sub_of_narrows {t : TypeExpr} (ht : t.Returnable) (hnarrows : h.Narrows c owner t) :
    h.Sub (h.registry.canonicalize c.scope t) (h.registry.canonicalize owner.scope t) := by
  cases ht with
  | void => exact h.sub_refl .void
  | mixed => exact h.sub_refl .mixed
  | combined ht =>
    have halt := exists_alternative ht hnarrows
    rw [h.sub_iff_forall_flat fun a ha => (halt a ha).1]
    intro a ha
    obtain ⟨hjoinable, b, hb, hsub⟩ := halt a ha
    -- `never` is below every type, but it is not a single alternative
    by_cases hnever : a = .named "never"
    · exact hnever ▸ h.never_sub _
    · have hsingle := single_of_joinable hjoinable (not_union_of_mem_flat ha) hnever
      exact (h.sub_iff_exists_flat hsingle _).2 ⟨b, hb, hsub⟩

end

/-- The names of a type mean the same in both classes, so that only `self` and `static` change. -/
theorem narrows_of_sameNames {r : Registry} {c owner : ClassDecl} {t : TypeExpr} (ht : t.Returnable)
    (hnames : ∀ n, .named n ∈ t.atoms → r.resolve c.scope n = r.resolve owner.scope n)
    (hclass : (ofRegistry r).Sub (.named c.name) (.named owner.name)) :
    (ofRegistry r).Narrows c owner t := by
  intro a ha
  show (ofRegistry r).Sub (r.canonicalize c.scope a) (r.canonicalize owner.scope a)
  cases ht with
  | void | mixed =>
    rw [List.mem_singleton.1 ha]
    exact sub_refl _ _
  | combined ht =>
    cases ht.word_of_mem_atoms ha with
    | named n =>
      rw [Registry.canonicalize, Registry.canonicalize, hnames n ha]
      exact sub_refl _ _
    | self =>
      rw [canonicalize_self, canonicalize_self]
      exact hclass
    | static =>
      rw [canonicalize_static, canonicalize_static]
      exact hclass

theorem returnViolations_eq_nil_iff (h : Hierarchy) (o : Override) :
    (h.returnViolations o).value = [] ↔ (Override.binds o.contractMethod o.contract = true →
      o.method.returnType ≠ .absent → o.contractMethod.returnType ≠ .absent →
      h.Sub (h.registry.canonicalize o.cls.scope o.method.returnType)
        (h.registry.canonicalize (o.contractOwner h.registry).scope
          o.contractMethod.returnType)) := by
  rw [h.value_returnViolations, List.map_eq_nil_iff, typeFaults]
  cases Override.binds o.contractMethod o.contract with
  | false => simp
  | true =>
    simp only [returnFits, typeSubtype, Sub, if_true, forall_const]
    by_cases hown : o.method.returnType = .absent
    · simp [hown]
    · by_cases hexpected : o.contractMethod.returnType = .absent
      · simp [hexpected]
      · simp [hown, hexpected]

/-- A return type that is written as the contract writes it, and whose names mean the same in both
classes, is never reported, also where it mentions `self` or `static`. -/
theorem repeated_return_type_accepted {r : Registry} (hr : r.Indexed)
    (hreserved : r.AvoidsScalarNames) {o : Override} {owner : ClassDecl} {name : String}
    (hcls : r.class? name = some o.cls) (howner : r.class? o.contractMethod.owner = some owner)
    (habove : ∃ a ∈ r.ancestors o.cls.name, lower a = lower owner.name)
    (hsame : o.method.returnType = o.contractMethod.returnType)
    (hwritten : o.method.returnType.Returnable)
    (hnames : ∀ n, .named n ∈ o.method.returnType.atoms →
      r.resolve o.cls.scope n = r.resolve owner.scope n) :
    ((ofRegistry r).returnViolations o).value = [] := by
  have hclass := named_sub_named_of_above hr.wellKeyed hreserved hcls howner habove
  have hsub := sub_of_narrows hwritten (narrows_of_sameNames hwritten hnames hclass)
  rw [returnViolations_eq_nil_iff, ← hsame]
  intro _ _ _
  simpa only [Override.contractOwner, ofRegistry, howner, Option.getD_some] using hsub

/-- A class repeats the return type of the interface that it implements. The type mentions the class
twice, once inside an intersection. -/
def nestedSelf : Registry :=
  let f := Work.typedMethod "f" "self|(static&Countable)|null"
  Sample.registry [
    Sample.classLike "interface_declaration" "I" [] [] [f],
    Sample.classLike "class_declaration" "A" [] ["I"] [f]]

theorem nestedSelf_facts :
    ∀ cls ∈ nestedSelf.class? "A", ∀ owner ∈ nestedSelf.class? "I",
      ∀ m ∈ cls.method? "f", ∀ k ∈ owner.method? "f",
        m.returnType = .union [.self, .intersection [.static, .named "Countable"], .named "null"] ∧
        k.returnType = m.returnType ∧ k.owner = "I" ∧
        nestedSelf.ancestors cls.name = [owner.name] ∧
        (∀ n ∈ ["Countable", "null"],
          nestedSelf.resolve cls.scope n = nestedSelf.resolve owner.scope n) ∧
        nestedSelf.canonicalize cls.scope m.returnType ≠
          nestedSelf.canonicalize owner.scope k.returnType := by
  decide +kernel

theorem repeated_return_type_accepted_nested :
    nestedSelf.AvoidsScalarNames ∧ ∃ cls owner m k, nestedSelf.class? "A" = some cls ∧ nestedSelf.class? "I" = some owner ∧
      cls.method? "f" = some m ∧ owner.method? "f" = some k ∧ m.returnType.MentionsClass ∧
      nestedSelf.canonicalize cls.scope m.returnType ≠
        nestedSelf.canonicalize owner.scope k.returnType ∧
      ((ofRegistry nestedSelf).returnViolations ⟨m, k, cls, owner⟩).value = [] := by
  obtain ⟨cls, hcls⟩ := Option.isSome_iff_exists.1
    (show (nestedSelf.class? "A").isSome by decide +kernel)
  obtain ⟨owner, howner⟩ := Option.isSome_iff_exists.1
    (show (nestedSelf.class? "I").isSome by decide +kernel)
  obtain ⟨m, hm⟩ := Option.isSome_iff_exists.1
    ((show ∀ c ∈ nestedSelf.class? "A", (c.method? "f").isSome by decide +kernel) cls hcls)
  obtain ⟨k, hk⟩ := Option.isSome_iff_exists.1
    ((show ∀ c ∈ nestedSelf.class? "I", (c.method? "f").isSome by decide +kernel) owner howner)
  obtain ⟨htype, hsame, hfound, habove, hnames, hdiffer⟩ :=
    nestedSelf_facts cls hcls owner howner m hm k hk
  have hindexed : nestedSelf.Indexed := Sample.indexed_registry _
  have hreserved : nestedSelf.AvoidsScalarNames := by decide +kernel
  have hmentions : m.returnType.MentionsClass := by
    rw [htype]
    exact Or.inl (by decide)
  have hwritten : m.returnType.Returnable := by
    rw [htype]
    refine .combined (.union ?_)
    simp only [List.forall_mem_cons, List.not_mem_nil, false_implies, implies_true, and_true]
    refine ⟨.word .self, .intersection ?_, .word (.named _)⟩
    simp only [List.forall_mem_cons, List.not_mem_nil, false_implies, implies_true, and_true]
    exact ⟨.static, .named _⟩
  have haccepted := @repeated_return_type_accepted nestedSelf hindexed hreserved ⟨m, k, cls, owner⟩
    owner "A" hcls (by rw [hfound, howner]) ⟨owner.name, by simp [habove], rfl⟩ hsame.symm hwritten
    (by
      intro n hn
      apply hnames
      simpa [htype, atoms, atomsAll] using hn)
  exact ⟨hreserved, cls, owner, m, k, hcls, howner, hm, hk, hmentions, hdiffer, haccepted⟩

end Hierarchy

end ContractCheck
