import ContractCheck.Proofs.Exceptions.Announcements
import ContractCheck.Proofs.Hierarchy.NearestMethod
import ContractCheck.Proofs.Session.Variance

/-!
What `self` and `parent` mean in the methods of traits. The class that uses a trait is not recorded
with the method, and the class that the method runs on is taken for it. Main statement: the two words
mean that class and its parent, and so the class that uses the trait exactly if no other class
inherits the method from it.
-/
namespace ContractCheck

open Text

namespace Registry

variable {r : Registry} {scope : Scope}

/-- The chain of parents from its other end. -/
theorem Inherits.exists_parent {d e : ClassDecl} {k : Nat} (h : r.Inherits d (k + 1) e) :
    ∃ p, (r.parentOf d).bind r.class? = some p ∧ r.Inherits p k e := by
  induction k generalizing e with
  | zero =>
    cases h with
    | step h hp =>
      cases h with
      | start => exact ⟨e, hp, .start⟩
  | succ k ih =>
    cases h with
    | step h hp =>
      obtain ⟨q, hq, hchain⟩ := ih h
      exact ⟨q, hq, .step hchain hp⟩

theorem Inherits.trans {d e x : ClassDecl} {j k : Nat} (h : r.Inherits d j e)
    (h' : r.Inherits e k x) : r.Inherits d (j + k) x := by
  induction h' with
  | start => exact h
  | step _ hp ih => exact .step ih hp

theorem Inherits.unique {d e e' : ClassDecl} {k : Nat} (h : r.Inherits d k e)
    (h' : r.Inherits d k e') : e = e' := by
  induction h generalizing e' with
  | start =>
    cases h' with
    | start => rfl
  | step _ hp ih =>
    cases h' with
    | step h' hp' =>
      cases ih h'
      exact Option.some.inj (hp.symm.trans hp')

def FiniteChain (r : Registry) (d : ClassDecl) : Prop :=
  ∃ k e, r.Inherits d k e ∧ (r.parentOf e).bind r.class? = none

theorem FiniteChain.exists_bound {d : ClassDecl} (hd : r.FiniteChain d) :
    ∃ n, ∀ k e, r.Inherits d k e → k ≤ n := by
  obtain ⟨n, last, hlast, hend⟩ := hd
  refine ⟨n, fun k e h => ?_⟩
  induction h with
  | start => omega
  | @step k e p h hp ih =>
    have hne : k ≠ n := by
      rintro rfl
      rw [h.unique hlast, hend] at hp
      cases hp
    omega

/-- In a chain that ends, no class above another one has the same parent. -/
theorem parentOf_ne_of_inherits {d e : ClassDecl} {k : Nat} (hfinite : r.FiniteChain d)
    (h : r.Inherits d (k + 1) e) : r.parentOf d ≠ r.parentOf e := by
  intro hsame
  obtain ⟨p, hp, hchain⟩ := h.exists_parent
  have hcycle : r.Inherits p (k + 1) p := .step hchain (hsame ▸ hp)
  -- from the parent on the chain could be followed for ever
  have hlong : ∀ n, ∃ m, n ≤ m ∧ r.Inherits d m p := by
    intro n
    induction n with
    | zero => exact ⟨1, by omega, .step .start hp⟩
    | succ n ih =>
      obtain ⟨m, hm, hdp⟩ := ih
      exact ⟨m + (k + 1), by omega, hdp.trans hcycle⟩
  obtain ⟨bound, hbound⟩ := hfinite.exists_bound
  obtain ⟨m, hm, hdp⟩ := hlong (bound + 1)
  have hle := hbound m p hdp
  omega

/-- In a method of a trait, `self` is the class that the method runs on, and `parent` is the parent
of that class; without a parent of some name it is a name like any other. So a class of the chain of
parents, such as the one that uses the trait, is `self` exactly if it is the class that the method runs
on, and if the chain ends its parent is `parent` exactly then. -/
theorem trait_scope_is_of_running_class {r : Registry} (hr : r.Indexed)
    {trait user cls : ClassDecl} {m : Method} {key name : String} {k : Nat}
    (htrait : r.class? key = some trait) (hkind : trait.kind = .trait)
    (hm : m ∈ trait.methods.values) (hcls : r.class? name = some cls)
    (hchain : r.Inherits cls k user) :
    r.resolve (r.methodScope m (some cls)) "self" = cls.name ∧
    (∀ p, r.parentTarget? cls = some p → p ≠ "" →
      r.resolve (r.methodScope m (some cls)) "parent" = p) ∧
    (r.parentOf cls = none → r.resolve (r.methodScope m (some cls)) "parent" =
      r.resolve { trait.scope with parentRef := none } "parent") ∧
    (r.resolve (r.methodScope m (some cls)) "self" = user.name ↔ cls = user) ∧
    (r.FiniteChain cls → ∀ p, r.parentTarget? user = some p → p ≠ "" →
      (r.resolve (r.methodScope m (some cls)) "parent" = p ↔ cls = user)) := by
  have hkeyed := hr.wellKeyed
  have hword : bareWord "parent" = "parent" := by decide +kernel
  have hscope := methodScope_of_trait (class?_owner hkeyed htrait hm) hkind cls
  have hself : r.resolve (r.methodScope m (some cls)) "self" = cls.name := by
    rw [hscope]
    exact resolve_self (by decide +kernel) rfl
  have hparent : ∀ p, r.parentOf cls = some p →
      r.resolve (r.methodScope m (some cls)) "parent" = p := by
    intro p hp
    rw [hscope]
    exact resolve_parent hword (by simp [hp]) (unslashed_of_parentOf hkeyed hcls hp)
  refine ⟨hself, fun p hp hne => hparent p (parentOf_eq_some_iff.2 ⟨hp, hne⟩), ?_, ?_, ?_⟩
  · intro hp
    rw [hscope]
    exact resolve_orphan hword rfl rfl (by simp [hp]) rfl
  · rw [hself]
    constructor
    · intro hname
      have hfound := class?_name hkeyed hcls
      have huser := hchain.class?_name hkeyed hfound
      rw [hname, huser] at hfound
      exact (Option.some.inj hfound).symm
    · intro hsame
      rw [hsame]
  · intro hfinite p htarget hempty
    have hp := parentOf_eq_some_iff.2 ⟨htarget, hempty⟩
    cases k with
    | zero =>
      cases hchain with
      | start => exact iff_of_true (hparent p hp) rfl
    | succ k =>
      obtain ⟨parent, hbound, _⟩ := hchain.exists_parent
      obtain ⟨q, hq, _⟩ := Option.bind_eq_some_iff.1 hbound
      have hne := parentOf_ne_of_inherits hfinite hchain
      rw [hq, hp] at hne
      constructor
      · intro hresolved
        rw [hparent q hq] at hresolved
        exact absurd (congrArg some hresolved) hne
      · intro hsame
        rw [hq.symm, hp.symm, hsame] at hne
        exact absurd rfl hne

/-- A class uses a trait whose method throws the class and goes on to the method of its parent.
Another class inherits that method. -/
def inheritedTrait : Registry :=
  Sample.registry [
    Sample.classLike "class_declaration" "P" [] []
      [Sample.method "m" [Sample.throwNew "LogicException"]],
    Sample.classLike "trait_declaration" "T" [] []
      [Sample.method "m" [Sample.throwNew "self", Sample.callOnClass "parent" "m"]],
    Sample.classLike "class_declaration" "U" ["P"] [] [Sample.use "use T;"],
    Sample.classLike "class_declaration" "C" ["U"] [] []]

theorem inheritedTrait_facts :
    (∀ t ∈ inheritedTrait.class? "T", t.kind = .trait ∧ (t.method? "m").isSome) ∧
    (∀ c ∈ inheritedTrait.class? "C", c.name = "C" ∧ inheritedTrait.parentTarget? c = some "U") ∧
    (∀ u ∈ inheritedTrait.class? "U", u.name = "U" ∧ inheritedTrait.parentTarget? u = some "P") ∧
    ∀ p ∈ inheritedTrait.class? "P", inheritedTrait.parentOf p = none := by
  decide +kernel

theorem trait_scope_is_of_running_class_inherited :
    ∃ t u c m, inheritedTrait.class? "T" = some t ∧ t.method? "m" = some m ∧
      inheritedTrait.class? "C" = some c ∧ inheritedTrait.Inherits c 1 u ∧ u.name = "U" ∧
      inheritedTrait.resolve (inheritedTrait.methodScope m (some c)) "self" = "C" ∧
      inheritedTrait.resolve (inheritedTrait.methodScope m (some c)) "parent" = "U" ∧
      ¬ inheritedTrait.resolve (inheritedTrait.methodScope m (some c)) "parent" = "P" := by
  obtain ⟨t, ht⟩ := Option.isSome_iff_exists.1
    (show (inheritedTrait.class? "T").isSome by decide +kernel)
  obtain ⟨c, hc⟩ := Option.isSome_iff_exists.1
    (show (inheritedTrait.class? "C").isSome by decide +kernel)
  obtain ⟨u, hu⟩ := Option.isSome_iff_exists.1
    (show (inheritedTrait.class? "U").isSome by decide +kernel)
  obtain ⟨p, hp⟩ := Option.isSome_iff_exists.1
    (show (inheritedTrait.class? "P").isSome by decide +kernel)
  obtain ⟨htrait, hchild, huser, htop⟩ := inheritedTrait_facts
  obtain ⟨m, hm⟩ := Option.isSome_iff_exists.1 (htrait t ht).2
  have hindexed : inheritedTrait.Indexed := Sample.indexed_registry _
  have hstep : (inheritedTrait.parentOf c).bind inheritedTrait.class? = some u := by
    rw [parentOf_eq_some_iff.2 ⟨(hchild c hc).2, by decide⟩, Option.bind_some, hu]
  have hstep' : (inheritedTrait.parentOf u).bind inheritedTrait.class? = some p := by
    rw [parentOf_eq_some_iff.2 ⟨(huser u hu).2, by decide⟩, Option.bind_some, hp]
  have hchain : inheritedTrait.Inherits c 1 u := .step .start hstep
  have hfinite : inheritedTrait.FiniteChain c :=
    ⟨2, p, .step hchain hstep', by rw [htop p hp, Option.bind_none]⟩
  obtain ⟨hself, hparent, _, _, hiff⟩ := trait_scope_is_of_running_class hindexed ht (htrait t ht).1
    (Table.mem_values_of_find? hm) hc hchain
  refine ⟨t, u, c, m, ht, hm, hc, hchain, (huser u hu).1, ?_,
    hparent _ (hchild c hc).2 (by decide), ?_⟩
  · rw [hself, (hchild c hc).1]
  · rw [hiff hfinite "P" (huser u hu).2 (by decide)]
    intro hsame
    have hname := (hchild c hc).1
    rw [hsame, (huser u hu).1] at hname
    exact absurd hname (by decide)

/-- The class that uses the trait is neither `self` nor is its parent `parent` where another class
inherits the method. What the method of the parent throws is missed there. -/
theorem inherited_trait_method_misses_parent :
    ∃ t ∈ inheritedTrait.class? "T", ∃ u ∈ inheritedTrait.class? "U",
      ∃ c ∈ inheritedTrait.class? "C", ∃ m ∈ t.method? "m",
        t.kind = .trait ∧ inheritedTrait.traitsOf u = [t.name] ∧
        inheritedTrait.parentOf c = some u.name ∧ c.methods.entries.isEmpty = true ∧
        c.traitRefs = [] ∧ inheritedTrait.parentOf u = some "P" ∧
        inheritedTrait.resolve (inheritedTrait.methodScope m (some c)) "self" ≠ u.name ∧
        inheritedTrait.resolve (inheritedTrait.methodScope m (some c)) "parent" ≠ "P" ∧
        ((Hierarchy.ofRegistry inheritedTrait).trace ⟨m, some u⟩).value.keys =
          ["U", "LogicException"] ∧
        ((Hierarchy.ofRegistry inheritedTrait).trace ⟨m, some c⟩).value.keys = ["C"] := by
  decide +kernel

end Registry

end ContractCheck
