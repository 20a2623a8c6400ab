import ContractCheck.Proofs.Hierarchy.TraitCycles
import ContractCheck.Proofs.Session.Attempts
import ContractCheck.Proofs.Session.Reports

/-!
Which checks against contracts come to nothing. The rules themselves always give an answer, so a
check of a registered class needs the methods of the class and of its contracts, and no more. Main
statement: it fails just where one of these, or an ancestor of a contract, reaches a cycle of traits.
-/
namespace ContractCheck

open Text TracedOrCycle

namespace Work

open Session

section

variable {α β : Type}

def FailsOnCycles (x : Attempt α) : Prop :=
  ∀ s fault, (x.run.run s).1 = .error fault → fault = .traitCycle

theorem failsOnCycles_lift (x : Work α) : FailsOnCycles (liftM x) := by
  intro s fault h
  cases h

theorem failsOnCycles_attempt (m : Memory) (question : Hierarchy → TracedOrCycle α) :
    FailsOnCycles (attempt m question) := by
  intro s fault h
  have hask : (ask m question).run s = ((question (s.hierarchy m)).run.value,
      ((ask m fun h => (question h).run).run s).2) := rfl
  rw [attempt, ExceptT.run_mk, StateT.run_bind, hask] at h
  cases hvalue : (question (s.hierarchy m)).run.value with
  | error e =>
    rw [hvalue] at h
    cases e
    cases h
    rfl
  | ok a =>
    rw [hvalue] at h
    cases h

theorem failsOnCycles_bind {x : Attempt α} {f : α → Attempt β} (hx : FailsOnCycles x)
    (hf : ∀ a, FailsOnCycles (f a)) : FailsOnCycles (x >>= f) := by
  intro s fault h
  rw [ExceptT.run_bind, StateT.run_bind] at h
  cases hrun : x.run.run s with
  | mk result t =>
    rw [hrun] at h
    cases result with
    | error e =>
      cases h
      exact hx s fault (by rw [hrun])
    | ok a => exact hf a t fault h

theorem failsOnCycles_gather {f : α → Attempt (List β)} (hf : ∀ a, FailsOnCycles (f a))
    (l : List α) : FailsOnCycles (gather f l) := by
  induction l with
  | nil => exact failsOnCycles_lift (pure [])
  | cons a l ih =>
    refine failsOnCycles_bind (hf a) fun first => failsOnCycles_bind ih fun more => ?_
    exact failsOnCycles_lift (pure (first ++ more))

theorem failsOnCycles_checkContract (cls : ClassDecl) (own : MethodTable) (contract : ClassDecl) :
    FailsOnCycles (checkContract cls own contract) := by
  refine failsOnCycles_bind (failsOnCycles_attempt _ _) fun asked => ?_
  refine failsOnCycles_bind (failsOnCycles_lift get) fun s => ?_
  refine failsOnCycles_gather (fun o => ?_) _
  exact failsOnCycles_gather (fun rule => failsOnCycles_lift (applySubstitution o rule)) _

theorem load_registered {s : Session} {name : String} {cls : ClassDecl}
    (hcls : s.registry.class? name = some cls) : Yields (load name) s cls s := by
  refine yields_bind_iff.2 ⟨s, s, rfl, ?_⟩
  rw [hcls]
  rfl

/-- A registered class is found, and then nothing but a cycle can stop its check. -/
theorem traitCycle_of_checkSubstitution {s : Session} {name : String} {cls : ClassDecl}
    (hcls : s.registry.class? name = some cls) {fault : CheckFault}
    (h : ((checkSubstitution name).run.run s).1 = .error fault) : fault = .traitCycle := by
  have hload : (load name).run.run s = (.ok cls, s) := load_registered hcls
  rw [checkSubstitution, ExceptT.run_bind, StateT.run_bind, hload] at h
  refine failsOnCycles_bind (failsOnCycles_attempt _ _) (fun own => ?_) s fault h
  refine failsOnCycles_bind (failsOnCycles_lift _) fun contracts => ?_
  refine failsOnCycles_bind (failsOnCycles_gather (failsOnCycles_checkContract cls own) _) ?_
  intro violations
  exact failsOnCycles_bind (failsOnCycles_lift _) fun _ => failsOnCycles_lift (pure violations)

end

theorem preserved_applySubstitution (o : Override) (rule : SubstitutionRule × Nat) (s : Session) :
    s.Preserved ((applySubstitution o rule).run s).2 := by
  obtain ⟨rule, place⟩ := rule
  rw [run_applySubstitution]
  cases rule with
  | exceptions =>
    have htrace := preserved_trace s.substitution.memory (s.substitution.memory.analyst place)
      ⟨o.method, some o.cls⟩ s
    exact htrace.trans (preserved_ask _ _ _)
  | returnType => exact preserved_ask _ _ s
  | parameterTypes => exact preserved_ask _ _ s

section

variable {s t : Session} {cls contract : ClassDecl} {own : MethodTable}

theorem preserved_of_rules {o : Override} {rules : List (SubstitutionRule × Nat)}
    {found : List Violation} {u : Session} (hs : s.Preserved t)
    (h : Yields (gather (fun rule => liftM (applySubstitution o rule)) rules) t found u) :
    s.Preserved u := by
  refine gather_keeps (fun rule _ a part b ha hb => ?_) hs h
  have hrun := yields_lift hb
  have hpreserved := preserved_applySubstitution o rule a
  rw [hrun] at hpreserved
  exact ha.trans hpreserved

theorem preserved_of_checkContract {found : List Violation} {u : Session} (hs : s.Preserved t)
    (h : Yields (checkContract cls own contract) t found u) : s.Preserved u := by
  obtain ⟨asked, v, hasked, h⟩ := yields_bind h
  have hv := hs.trans (preserved_of_attempt hasked).2
  exact gather_keeps (fun o _ a part b ha hb => preserved_of_rules ha hb) hv
    (yields_get_bind_iff.1 h)

/-- The rules have an answer to every override. -/
theorem exists_rules (overrides : List Override) (rules : List (SubstitutionRule × Nat))
    (s : Session) : ∃ found t, Yields (gather (fun o =>
      gather (fun rule => liftM (applySubstitution o rule)) rules) overrides) s found t := by
  refine (exists_gather_iff (fun _ => True) (A := fun _ => True) (fun o _ s _ => ?_)
    (fun _ _ _ _ _ _ _ => trivial) trivial).2 fun _ _ => trivial
  refine iff_of_true ?_ trivial
  refine (exists_gather_iff (fun _ => True) (A := fun _ => True) (fun rule _ s _ => ?_)
    (fun _ _ _ _ _ _ _ => trivial) trivial).2 fun _ _ => trivial
  exact iff_of_true ⟨_, _, rfl⟩ trivial

theorem exists_checkContract_iff (hs : s.Preserved t) (cls : ClassDecl) (own : MethodTable)
    (contract : ClassDecl) :
    (∃ found u, Yields (checkContract cls own contract) t found u) ↔
      ∃ asked, Gives ((s.hierarchy .session).methodsOf contract) asked := by
  rw [← hs.hierarchy, ← exists_attempt_iff .session (·.methodsOf contract)]
  constructor
  · intro h
    obtain ⟨found, u, h⟩ := h
    obtain ⟨asked, v, hasked, _⟩ := yields_bind h
    exact ⟨asked, v, hasked⟩
  · intro h
    obtain ⟨asked, v, hasked⟩ := h
    obtain ⟨found, u, hrules⟩ :=
      exists_rules (overrides cls contract own asked) v.substitution.rules.zipIdx v
    exact ⟨found, u, yields_bind_iff.2 ⟨asked, v, hasked, yields_get_bind_iff.2 hrules⟩⟩

theorem exists_checkSubstitution_iff {name : String} (hcls : s.registry.class? name = some cls) :
    (∃ found t, Yields (checkSubstitution name) s found t) ↔
      (∃ own, Gives (s.registry.ownMethods cls) own) ∧
        ∀ contract ∈ ((s.hierarchy .session).contracts cls).value,
          ∃ asked, Gives ((s.hierarchy .session).methodsOf contract) asked := by
  have hgather : ∀ own t, s.Preserved t →
      ((∃ found u, Yields (gather (checkContract cls own)
        ((s.hierarchy .session).contracts cls).value) t found u) ↔
        ∀ contract ∈ ((s.hierarchy .session).contracts cls).value,
          ∃ asked, Gives ((s.hierarchy .session).methodsOf contract) asked) := by
    intro own t ht
    refine exists_gather_iff s.Preserved (fun contract _ t ht => ?_) ?_ ht
    · exact exists_checkContract_iff ht cls own contract
    · exact fun contract _ t found u ht h => preserved_of_checkContract ht h
  have hask : ∀ t : Session, s.Preserved t → s.Preserved ((ask .session (·.contracts cls)).run t).2 :=
    fun t ht => ht.trans (preserved_ask _ _ t)
  constructor
  · intro h
    obtain ⟨found, _, h⟩ := h
    obtain ⟨cls', _, hload, h⟩ := yields_bind h
    obtain ⟨hcls', rfl⟩ := yields_load hload
    obtain rfl : cls = cls' := Option.some.inj (hcls.symm.trans hcls')
    obtain ⟨own, t, hown, h⟩ := yields_bind h
    obtain ⟨hgives, ht⟩ := preserved_of_attempt hown
    obtain ⟨contracts, u, hcontracts, h⟩ := yields_bind h
    cases yields_lift hcontracts
    obtain ⟨violations, v, hviolations, _⟩ := yields_bind h
    rw [ht.hierarchy] at hviolations
    exact ⟨⟨own, hgives⟩, (hgather own _ (hask t ht)).1 ⟨violations, v, hviolations⟩⟩
  · intro h
    obtain ⟨⟨own, hown⟩, hasked⟩ := h
    obtain ⟨_, t, hattempt⟩ :=
      (exists_attempt_iff .session (·.registry.ownMethods cls) s).2 ⟨own, hown⟩
    have ht := (preserved_of_attempt hattempt).2
    obtain ⟨violations, v, hviolations⟩ := (hgather _ _ (hask t ht)).2 hasked
    rw [← ht.hierarchy] at hviolations
    exact ⟨_, _, yields_bind_iff.2 ⟨cls, s, load_registered hcls, yields_bind_iff.2 ⟨_, t, hattempt,
      yields_bind_iff.2 ⟨_, _, rfl, yields_bind_iff.2 ⟨violations, v, hviolations, rfl⟩⟩⟩⟩⟩

theorem checkSubstitution_fails_iff {name : String} (hcls : s.registry.class? name = some cls) :
    ((checkSubstitution name).run.run s).1 = .error .traitCycle ↔
      ¬ ∃ found t, Yields (checkSubstitution name) s found t := by
  constructor
  · intro h hyields
    obtain ⟨found, t, hyields⟩ := hyields
    rw [hyields] at h
    cases h
  · intro h
    cases hrun : (checkSubstitution name).run.run s with
    | mk result t =>
      cases result with
      | error fault =>
        obtain rfl : fault = .traitCycle := traitCycle_of_checkSubstitution hcls (by rw [hrun])
        rfl
      | ok found => exact absurd ⟨found, t, hrun⟩ h

end

/-- The methods of a class-like are not listed just where it reaches a cycle of traits, and then no
depth is enough for them. The check of a registered class fails in this way just where a cycle is
reached from the class, from a contract, or from an ancestor of a contract. -/
theorem traitCycle_iff_reachesTraitCycle (s : Session) :
    (∀ d, (Fails (s.registry.ownMethods d) ↔ s.registry.ReachesTraitCycle d) ∧
      ((∀ depth, Fails (s.registry.ownMethodsWithin depth d)) ↔ s.registry.ReachesTraitCycle d)) ∧
    ∀ name cls, s.registry.class? name = some cls →
      (((checkSubstitution name).run.run s).1 = .error .traitCycle ↔
        s.registry.ReachesTraitCycle cls ∨
        ∃ contract ∈ ((s.hierarchy .session).contracts cls).value,
          s.registry.ReachesTraitCycle contract ∨
          ∃ a ∈ (s.hierarchy .session).ancestorDecls contract, s.registry.ReachesTraitCycle a) := by
  constructor
  · intro d
    exact ⟨Registry.fails_ownMethods_iff _ d, Registry.fails_at_every_depth_iff _ d⟩
  · intro name cls hcls
    have hown := Registry.fails_ownMethods_iff s.registry cls
    have hcontract := Hierarchy.fails_methodsOf_iff (s.hierarchy .session)
    rw [fails_iff] at hown
    simp only [fails_iff] at hcontract
    rw [checkSubstitution_fails_iff hcls, exists_checkSubstitution_iff hcls, not_and_or, hown]
    simp only [not_forall, hcontract, exists_prop]
    rfl

def distantCycle : Session :=
  Sample.session [
    Sample.classLike "trait_declaration" "T" [] [] [Sample.use "use U;"],
    Sample.classLike "trait_declaration" "U" [] [] [Sample.use "use T;"],
    Sample.classLike "class_declaration" "Q" [] [] [Sample.use "use T;"],
    Sample.classLike "class_declaration" "P" ["Q"] [] [],
    Sample.classLike "class_declaration" "C" ["P"] [] []]

theorem traitCycle_iff_reachesTraitCycle_distantCycle :
    ∃ cls, distantCycle.registry.class? "C" = some cls ∧
      ((checkSubstitution "C").run.run distantCycle).1 = .error .traitCycle ∧
      ¬ distantCycle.registry.ReachesTraitCycle cls ∧
      ∃ contract ∈ ((distantCycle.hierarchy .session).contracts cls).value,
        ¬ distantCycle.registry.ReachesTraitCycle contract ∧
        ∃ a ∈ (distantCycle.hierarchy .session).ancestorDecls contract,
          distantCycle.registry.ReachesTraitCycle a := by
  have hrun : ((checkSubstitution "C").run.run distantCycle).1.toOption.isNone = true ∧
      (distantCycle.registry.class? "C").isSome = true ∧
      (distantCycle.registry.class? "C").all (fun cls =>
        (distantCycle.registry.ownMethods cls).run.value.toOption.isSome &&
        ((distantCycle.hierarchy .session).contracts cls).value.all fun contract =>
          (distantCycle.registry.ownMethods contract).run.value.toOption.isSome) = true := by
    decide +kernel
  obtain ⟨hfails, hfound, htables⟩ := hrun
  obtain ⟨cls, hcls⟩ := Option.isSome_iff_exists.1 hfound
  obtain ⟨hown, hcheck⟩ := traitCycle_iff_reachesTraitCycle distantCycle
  have hacyclic : ∀ d : ClassDecl,
      (distantCycle.registry.ownMethods d).run.value.toOption.isSome = true →
        ¬ distantCycle.registry.ReachesTraitCycle d := by
    intro d hd hcycle
    have hfail := (hown d).1.2 hcycle
    rw [Fails] at hfail
    rw [hfail] at hd
    cases hd
  have hfault : ((checkSubstitution "C").run.run distantCycle).1 = .error .traitCycle := by
    rw [checkSubstitution_fails_iff hcls]
    intro h
    obtain ⟨found, t, h⟩ := h
    rw [h] at hfails
    cases hfails
  rw [hcls, Option.all_some, Bool.and_eq_true, List.all_eq_true] at htables
  refine ⟨cls, hcls, hfault, hacyclic cls htables.1, ?_⟩
  obtain ⟨contract, hcontract, hcycle⟩ :=
    ((hcheck "C" cls hcls).1 hfault).resolve_left (hacyclic cls htables.1)
  have hcontract' := hacyclic contract (htables.2 contract hcontract)
  exact ⟨contract, hcontract, hcontract', hcycle.resolve_left hcontract'⟩

end Work

end ContractCheck
