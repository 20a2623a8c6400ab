import ContractCheck.Session.Checks
import ContractCheck.Proofs.Hierarchy.Contracts
import ContractCheck.Proofs.Hierarchy.OwnMethods

/-!
The methods of a class that stand in for methods of its contracts. Main statement: no two of them
have the same contract and the same name, if the parent class is no interface.
-/
namespace ContractCheck

open Text TracedOrCycle MethodTable

namespace Hierarchy

/-- A method that a class defines itself stands in for a method of a contract, which it does not have
from the same class-like. -/
structure Overrides (h : Hierarchy) (o : Override) : Prop where
  contract : o.contract ∈ (h.contracts o.cls).value
  own : ∃ methods, Gives (h.registry.ownMethods o.cls) methods ∧
    methods.find? (lower o.contractMethod.name) = some o.method
  asked : ∃ methods, Gives (h.methodsOf o.contract) methods ∧ o.contractMethod ∈ methods
  owners : lower o.method.owner ≠ lower o.contractMethod.owner

def overridesAgainst (h : Hierarchy) (cls : ClassDecl) (own : MethodTable) (contract : ClassDecl) :
    List Override :=
  match (h.methodsOf contract).run.value with
  | .error _ => []
  | .ok asked => Work.overrides cls contract own asked

def overridesOf (h : Hierarchy) (cls : ClassDecl) : List Override :=
  match (h.registry.ownMethods cls).run.value with
  | .error _ => []
  | .ok own => (h.contracts cls).value.flatMap (h.overridesAgainst cls own)

theorem mem_overrides_iff (cls contract : ClassDecl) (own : MethodTable) (asked : List Method)
    (o : Override) :
    o ∈ Work.overrides cls contract own asked ↔
      o.cls = cls ∧ o.contract = contract ∧ o.contractMethod ∈ asked ∧
        own.find? (lower o.contractMethod.name) = some o.method ∧
        lower o.method.owner ≠ lower o.contractMethod.owner := by
  rw [Work.overrides, List.mem_filterMap]
  constructor
  · rintro ⟨expected, hexpected, h⟩
    obtain ⟨method, hmethod, h⟩ := Option.bind_eq_some_iff.1 h
    by_cases hsame : sameName method.owner expected.owner = true
    · simp [hsame] at h
    · simp only [hsame, if_false, Bool.false_eq_true, Option.some.injEq] at h
      subst h
      exact ⟨rfl, rfl, hexpected, hmethod, by simpa [sameName] using hsame⟩
  · rintro ⟨rfl, rfl, hasked, hown, howners⟩
    refine ⟨o.contractMethod, hasked, ?_⟩
    have hsame : sameName o.method.owner o.contractMethod.owner = false := by
      simpa [sameName] using howners
    simp [hown, hsame]

theorem overridesAgainst_eq {h : Hierarchy} {cls contract : ClassDecl} {own : MethodTable}
    {asked : List Method} (hasked : Gives (h.methodsOf contract) asked) :
    h.overridesAgainst cls own contract = Work.overrides cls contract own asked := by
  rw [overridesAgainst, hasked]

theorem overridesOf_eq {h : Hierarchy} {cls : ClassDecl} {own : MethodTable}
    (hown : Gives (h.registry.ownMethods cls) own) :
    h.overridesOf cls = (h.contracts cls).value.flatMap (h.overridesAgainst cls own) := by
  rw [overridesOf, hown]

theorem mem_overridesAgainst_iff (h : Hierarchy) (cls : ClassDecl) (own : MethodTable)
    (contract : ClassDecl) (o : Override) :
    o ∈ h.overridesAgainst cls own contract ↔
      ∃ asked, Gives (h.methodsOf contract) asked ∧ o ∈ Work.overrides cls contract own asked := by
  constructor
  · intro ho
    rw [overridesAgainst] at ho
    split at ho
    · cases ho
    · rename_i asked hasked
      exact ⟨asked, hasked, ho⟩
  · rintro ⟨asked, hasked, ho⟩
    rwa [overridesAgainst_eq hasked]

theorem mem_overridesOf_iff (h : Hierarchy) (cls : ClassDecl) (o : Override) :
    o ∈ h.overridesOf cls ↔ o.cls = cls ∧ h.Overrides o := by
  constructor
  · intro ho
    rw [overridesOf] at ho
    split at ho
    · cases ho
    · rename_i own hown
      obtain ⟨contract, hcontract, ho⟩ := List.mem_flatMap.1 ho
      obtain ⟨asked, hasked, ho⟩ := (mem_overridesAgainst_iff _ _ _ _ o).1 ho
      obtain ⟨rfl, rfl, hin, hfind, howners⟩ := (mem_overrides_iff _ _ _ _ o).1 ho
      exact ⟨rfl, hcontract, ⟨own, hown, hfind⟩, ⟨asked, hasked, hin⟩, howners⟩
  · rintro ⟨rfl, ho⟩
    obtain ⟨own, hown, hfind⟩ := ho.own
    obtain ⟨asked, hasked, hin⟩ := ho.asked
    rw [overridesOf_eq hown]
    have hmem : o ∈ Work.overrides o.cls o.contract own asked :=
      (mem_overrides_iff _ _ _ _ o).2 ⟨rfl, rfl, hin, hfind, ho.owners⟩
    exact List.mem_flatMap.2
      ⟨o.contract, ho.contract, (mem_overridesAgainst_iff _ _ _ _ o).2 ⟨asked, hasked, hmem⟩⟩

section

variable {r : Registry}

theorem Overrides.declares (hr : r.WellKeyed) {o : Override} {name : String}
    (hc : r.class? name = some o.cls) (ho : (ofRegistry r).Overrides o) : r.Declares o.method := by
  obtain ⟨own, hown, hfind⟩ := ho.own
  exact ((Registry.wellNamed_ownMethods hr hc hown).of_find? hfind).2

theorem Overrides.offered (hr : r.WellKeyed) {o : Override} (ho : (ofRegistry r).Overrides o) :
    r.Offered o.contractMethod := by
  obtain ⟨n, hn⟩ := descriptor?_of_mem_contracts ho.contract
  obtain ⟨asked, hasked, hin⟩ := ho.asked
  exact (methodsOf_spec hr hn hasked).2 _ hin

def overrideKey (o : Override) : String × String :=
  (lower o.contract.name, lower o.method.name)

theorem nodup_overrides {cls contract : ClassDecl} {own : MethodTable} {asked : List Method}
    {P : Method → Prop} (hown : WellNamed P own) (hasked : (asked.map fun m => lower m.name).Nodup) :
    ((Work.overrides cls contract own asked).map overrideKey).Nodup := by
  -- an override has the name of the contract's method, in some letter case
  have hnames : ∀ expected o, (do
      let method ← own.find? (lower expected.name)
      if sameName method.owner expected.owner then none
      else some (⟨method, expected, cls, contract⟩ : Override)) = some o →
      lower o.method.name = lower expected.name := by
    intro expected o h
    obtain ⟨method, hmethod, h⟩ := Option.bind_eq_some_iff.1 h
    split at h
    · cases h
    · cases h
      exact (hown.of_find? hmethod).1.symm
  have hnodup : ((Work.overrides cls contract own asked).map fun o => lower o.method.name).Nodup :=
    (names_filterMap_sublist _ _ _ hnames asked).nodup hasked
  apply List.Nodup.of_map Prod.snd
  rw [List.map_map]
  exact hnodup

theorem nodup_overridesOf (hr : r.WellKeyed) {name : String} {cls : ClassDecl}
    (hc : r.class? name = some cls)
    (hp : ∀ p, (r.parentOf cls).bind r.class? = some p → p.isInterface = false) :
    (((ofRegistry r).overridesOf cls).map overrideKey).Nodup := by
  have hcontracts := nodup_names_contracts hr hp
  rw [overridesOf]
  split
  · exact List.nodup_nil
  · rename_i own hown
    rw [List.map_flatMap, List.nodup_flatMap]
    constructor
    · intro contract hin
      rw [overridesAgainst]
      split
      · exact List.nodup_nil
      · rename_i asked hasked
        obtain ⟨n, hn⟩ := descriptor?_of_mem_contracts hin
        exact nodup_overrides (Registry.wellNamed_ownMethods hr hc hown)
          (methodsOf_spec hr hn hasked).1
    · refine (List.pairwise_map.1 hcontracts).imp ?_
      intro K K' hne x hx hx'
      -- both contracts would have the name in the key
      have hfirst : ∀ K, x ∈ ((ofRegistry r).overridesAgainst cls own K).map overrideKey →
          x.1 = lower K.name := by
        intro K hx
        obtain ⟨o, ho, rfl⟩ := List.mem_map.1 hx
        obtain ⟨asked, _, ho⟩ := (mem_overridesAgainst_iff _ _ _ _ o).1 ho
        rw [overrideKey, ((mem_overrides_iff _ _ _ _ o).1 ho).2.1]
      exact hne ((hfirst K hx).symm.trans (hfirst K' hx'))

end

end Hierarchy

end ContractCheck
