import ContractCheck.Proofs.Hierarchy.Lookup
import Mathlib.Data.List.Perm.Subperm

/-!
Class-likes without a table of methods. A table is put together from those of the traits in use, and
of the traits that these use, to any depth. Main statement: there is none just where the way over
traits comes to a class-like that uses itself in the end.
-/
namespace ContractCheck

open Text TracedOrCycle

namespace TracedOrCycle

def Fails {α : Type} (x : TracedOrCycle α) : Prop :=
  (ExceptT.run x).value = .error .found

theorem fails_iff {α : Type} (x : TracedOrCycle α) : Fails x ↔ ¬ ∃ a, Gives x a := by
  simp only [Fails, Gives]
  cases (ExceptT.run x).value with
  | error e =>
    cases e
    simp
  | ok a => simp

/-- A fold succeeds if each of its steps does, where that does not depend on what came before. -/
theorem exists_foldlM_iff {α β : Type} {f : β → α → TracedOrCycle β} {A : α → Prop} {l : List α}
    (hstep : ∀ a ∈ l, ∀ b, (∃ b', Gives (f b a) b') ↔ A a) (b : β) :
    (∃ c, Gives (l.foldlM f b) c) ↔ ∀ a ∈ l, A a := by
  induction l generalizing b with
  | nil =>
    refine iff_of_true ⟨b, ?_⟩ (by simp)
    rw [List.foldlM_nil, gives_pure_iff]
  | cons a l ih =>
    have htail := ih fun x hx => hstep x (List.mem_cons_of_mem a hx)
    rw [List.forall_mem_cons, ← hstep a List.mem_cons_self b]
    simp only [List.foldlM_cons, gives_bind_iff]
    constructor
    · intro h
      obtain ⟨c, b', hb', hc⟩ := h
      exact ⟨⟨b', hb'⟩, (htail b').1 ⟨c, hc⟩⟩
    · intro h
      obtain ⟨⟨b', hb'⟩, hrest⟩ := h
      obtain ⟨c, hc⟩ := (htail b').2 hrest
      exact ⟨c, b', hb', hc⟩

end TracedOrCycle

namespace Registry

variable {r : Registry} {d t : ClassDecl}

def UsesTrait (r : Registry) (d t : ClassDecl) : Prop :=
  ∃ ref ∈ d.traitRefs, r.lookup d.scope ref = some t

/-- Over the traits in use, the class-like itself included, one is reached that uses itself in one or
more steps. -/
def ReachesTraitCycle (r : Registry) (d : ClassDecl) : Prop :=
  ∃ e, Relation.ReflTransGen r.UsesTrait d e ∧ Relation.TransGen r.UsesTrait e e

theorem ReachesTraitCycle.of_uses (h : r.UsesTrait d t) (ht : r.ReachesTraitCycle t) :
    r.ReachesTraitCycle d := by
  obtain ⟨e, hte, hcycle⟩ := ht
  exact ⟨e, .head h hte, hcycle⟩

/-- From a class-like that reaches a cycle one step leads to another such. -/
theorem ReachesTraitCycle.exists_uses (hd : r.ReachesTraitCycle d) :
    ∃ t, r.UsesTrait d t ∧ r.ReachesTraitCycle t := by
  obtain ⟨e, hde, hcycle⟩ := hd
  cases Relation.ReflTransGen.cases_head hde with
  | inl heq =>
    subst heq
    obtain ⟨t, hfirst, hback⟩ := Relation.TransGen.head'_iff.1 hcycle
    exact ⟨t, hfirst, d, hback, hcycle⟩
  | inr hstep =>
    obtain ⟨t, hfirst, hte⟩ := hstep
    exact ⟨t, hfirst, e, hte, hcycle⟩

theorem mem_values_of_uses (h : r.UsesTrait d t) : t ∈ r.classes.values := by
  obtain ⟨ref, _, ht⟩ := h
  exact Table.mem_values_of_find? ht

/-- A class-like has a table if all the traits it uses have one. -/
theorem exists_ownMethodsWithin_iff (r : Registry) (depth : Nat) (d : ClassDecl) :
    (∃ methods, Gives (r.ownMethodsWithin (depth + 1) d) methods) ↔
      ∀ t, r.UsesTrait d t → ∃ more, Gives (r.ownMethodsWithin depth t) more := by
  have hstep : ∀ ref ∈ d.traitRefs, ∀ methods,
      (∃ next, Gives (r.addTrait (r.ownMethodsWithin depth) d methods ref) next) ↔
        ∀ t, r.lookup d.scope ref = some t → ∃ more, Gives (r.ownMethodsWithin depth t) more := by
    intro ref _ methods
    simp only [gives_addTrait_iff]
    cases hlookup : r.lookup d.scope ref with
    | none => simp
    | some t => simp
  rw [ownMethodsWithin, exists_foldlM_iff hstep d.methods]
  constructor
  · intro h t ht
    obtain ⟨ref, href, hlookup⟩ := ht
    exact h ref href t hlookup
  · intro h ref href t hlookup
    exact h t ⟨ref, href, hlookup⟩

/-- Below a cycle no depth is enough. -/
theorem ReachesTraitCycle.not_gives (hd : r.ReachesTraitCycle d) (depth : Nat) :
    ¬ ∃ methods, Gives (r.ownMethodsWithin depth d) methods := by
  induction depth generalizing d with
  | zero =>
    intro h
    obtain ⟨methods, h⟩ := h
    cases h
  | succ depth ih =>
    obtain ⟨t, ht, hcycle⟩ := hd.exists_uses
    intro h
    exact ih hcycle ((exists_ownMethodsWithin_iff r depth d).1 h t ht)

structure TraitPath (r : Registry) (d : ClassDecl) (path : List ClassDecl) : Prop where
  registered : d ∈ r.classes.values
  nodup : path.Nodup
  leads : ∀ e ∈ path, e ∈ r.classes.values ∧ Relation.TransGen r.UsesTrait e d

section

variable {path : List ClassDecl} (hpath : r.TraitPath d path) (hcycle : ¬ r.ReachesTraitCycle d)

include hpath hcycle

/-- Without a cycle the way does not come back to where it was. -/
theorem TraitPath.nodup_cons : (d :: path).Nodup := by
  rw [List.nodup_cons]
  refine ⟨fun hin => ?_, hpath.nodup⟩
  exact hcycle ⟨d, .refl, (hpath.leads d hin).2⟩

theorem TraitPath.length_lt : path.length < r.classes.values.length := by
  have hsubset : d :: path ⊆ r.classes.values :=
    List.cons_subset.2 ⟨hpath.registered, fun e he => (hpath.leads e he).1⟩
  exact (List.subperm_of_subset (hpath.nodup_cons hcycle) hsubset).length_le

theorem TraitPath.extend (ht : r.UsesTrait d t) : r.TraitPath t (d :: path) := by
  refine ⟨mem_values_of_uses ht, hpath.nodup_cons hcycle, ?_⟩
  rw [List.forall_mem_cons]
  refine ⟨⟨hpath.registered, .single ht⟩, fun e he => ?_⟩
  exact ⟨(hpath.leads e he).1, (hpath.leads e he).2.tail ht⟩

/-- The depth shrinks no faster than the way grows, which is no longer than there are class-likes. -/
theorem TraitPath.exists_gives {depth : Nat}
    (hdepth : r.classes.values.length ≤ depth + path.length) :
    ∃ methods, Gives (r.ownMethodsWithin depth d) methods := by
  induction depth generalizing d path with
  | zero =>
    have hlength := hpath.length_lt hcycle
    omega
  | succ depth ih =>
    rw [exists_ownMethodsWithin_iff]
    intro t ht
    refine ih (hpath.extend hcycle ht) (fun h => hcycle (.of_uses ht h)) ?_
    rw [List.length_cons]
    omega

end

theorem exists_gives_ownMethods (hcycle : ¬ r.ReachesTraitCycle d) :
    ∃ methods, Gives (r.ownMethods d) methods := by
  rw [ownMethods, exists_ownMethodsWithin_iff]
  intro t ht
  have hpath : r.TraitPath t [] := ⟨mem_values_of_uses ht, List.nodup_nil, by simp⟩
  have hlength : r.classes.values.length = r.classes.entries.length := by simp [Table.values]
  refine hpath.exists_gives (fun h => hcycle (.of_uses ht h)) ?_
  rw [hlength]
  exact Nat.le_add_right _ _

theorem fails_ownMethods_iff (r : Registry) (d : ClassDecl) :
    Fails (r.ownMethods d) ↔ r.ReachesTraitCycle d := by
  rw [fails_iff]
  constructor
  · intro h
    by_contra hcycle
    exact h (exists_gives_ownMethods hcycle)
  · intro hcycle
    exact hcycle.not_gives _

/-- The listing of methods goes on without end just where it is cut off. -/
theorem fails_at_every_depth_iff (r : Registry) (d : ClassDecl) :
    (∀ depth, Fails (r.ownMethodsWithin depth d)) ↔ r.ReachesTraitCycle d := by
  constructor
  · intro h
    exact (fails_ownMethods_iff r d).1 (h _)
  · intro hcycle depth
    rw [fails_iff]
    exact hcycle.not_gives depth

end Registry

namespace Hierarchy

/-- The methods of a class-like, inherited ones included, are not listed just where it or an ancestor
reaches a cycle. -/
theorem fails_methodsOf_iff (h : Hierarchy) (d : ClassDecl) :
    Fails (h.methodsOf d) ↔ h.registry.ReachesTraitCycle d ∨
      ∃ a ∈ h.ancestorDecls d, h.registry.ReachesTraitCycle a := by
  have hstep : ∀ a ∈ h.ancestorDecls d, ∀ methods, (∃ next, Gives (h.addAncestor methods a) next) ↔
      ∃ more, Gives (h.registry.ownMethods a) more := by
    intro a _ methods
    simp [gives_addAncestor_iff]
  have hgives : (∃ ms, Gives (h.methodsOf d) ms) ↔ (∃ own, Gives (h.registry.ownMethods d) own) ∧
      ∀ a ∈ h.ancestorDecls d, ∃ more, Gives (h.registry.ownMethods a) more := by
    simp only [gives_methodsOf_iff]
    constructor
    · intro hm
      obtain ⟨_, own, t, hown, ht, _⟩ := hm
      exact ⟨⟨own, hown⟩, (exists_foldlM_iff hstep own).1 ⟨t, ht⟩⟩
    · intro hm
      obtain ⟨⟨own, hown⟩, hall⟩ := hm
      obtain ⟨t, ht⟩ := (exists_foldlM_iff hstep own).2 hall
      exact ⟨t.values, own, t, hown, ht, rfl⟩
  have hcycle : ∀ e : ClassDecl, h.registry.ReachesTraitCycle e ↔
      ¬ ∃ t, Gives (h.registry.ownMethods e) t := by
    intro e
    rw [← Registry.fails_ownMethods_iff, fails_iff]
  simp only [fails_iff, hgives, hcycle, not_and_or, not_forall, exists_prop]

end Hierarchy

end ContractCheck
