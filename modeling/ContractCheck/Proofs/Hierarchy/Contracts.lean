import ContractCheck.Rules.Substitution
import ContractCheck.Proofs.Hierarchy.Methods
import ContractCheck.Proofs.Hierarchy.Resolution
import ContractCheck.Proofs.Lists

/-!
The contracts of a class. Main statement: they differ in name, if the parent class is no interface.
-/
namespace ContractCheck

open Text

namespace Builtin

theorem lower_of_name? {name spelling : String} (h : name? name = some spelling) :
    lower spelling = nameKey name := by
  obtain ⟨e, he, rfl⟩ := Option.map_eq_some_iff.1 h
  obtain ⟨x, _, hx⟩ := List.mem_map.1 (mem_known_of_lookup he)
  rw [Prod.mk.injEq] at hx
  rw [← hx.1, ← hx.2]

theorem lower_name_of_interface? {name : String} {d : ClassDecl} (h : interface? name = some d) :
    lower d.name = nameKey name := by
  simp only [interface?, Option.bind_eq_bind, Option.bind_eq_some_iff, Option.pure_def,
    Option.some.injEq] at h
  obtain ⟨canonical, hcanonical, _, _, rfl⟩ := h
  exact lower_of_name? hcanonical

end Builtin

namespace Hierarchy

variable {r : Registry}

theorem lower_name_of_descriptor? (hr : r.WellKeyed) {name : String} {d : ClassDecl}
    (h : r.descriptor? name = some d) : lower d.name = nameKey name := by
  rcases descriptor?_cases h with h | ⟨_, h⟩
  · exact hr.lower_name_of_class? h
  · exact Builtin.lower_name_of_interface? h

theorem value_contracts (h : Hierarchy) (cls : ClassDecl) :
    (h.contracts cls).value =
      ((h.ancestorsOf cls.name).filterMap h.registry.descriptor?).filter (·.isInterface) ++
        ((h.registry.parentOf cls).bind h.registry.class?).toList :=
  rfl

theorem descriptor?_of_mem_contracts {h : Hierarchy} {cls contract : ClassDecl}
    (hc : contract ∈ (h.contracts cls).value) :
    ∃ name, h.registry.descriptor? name = some contract := by
  rw [value_contracts] at hc
  rcases List.mem_append.1 hc with hc | hc
  · obtain ⟨n, _, hn⟩ := List.mem_filterMap.1 (List.mem_filter.1 hc).1
    exact ⟨n, hn⟩
  · obtain ⟨p, _, hp⟩ := Option.bind_eq_some_iff.1 (Option.mem_toList.1 hc)
    exact ⟨p, descriptor?_of_class? hp⟩

theorem nodup_names_contracts (hr : r.WellKeyed) {cls : ClassDecl}
    (hp : ∀ p, (r.parentOf cls).bind r.class? = some p → p.isInterface = false) :
    (((ofRegistry r).contracts cls).value.map fun d => lower d.name).Nodup := by
  rw [value_contracts, List.map_append, List.nodup_append]
  have hsub := names_filterMap_sublist r.descriptor? (fun d => lower d.name) nameKey
    (fun _ _ hd => lower_name_of_descriptor? hr hd) (r.ancestors cls.name)
  refine ⟨?_, ?_, ?_⟩
  · exact ((List.filter_sublist.map _).trans hsub).nodup (r.nodup_ancestors cls.name)
  · show (((r.parentOf cls).bind r.class?).toList.map _).Nodup
    cases (r.parentOf cls).bind r.class? <;> simp
  · intro x hx y hy hxy
    obtain ⟨d, hd, rfl⟩ := List.mem_map.1 hx
    obtain ⟨p, hpar, rfl⟩ := List.mem_map.1 hy
    obtain ⟨hd, hinterface⟩ := List.mem_filter.1 hd
    obtain ⟨n, _, hn⟩ := List.mem_filterMap.1 hd
    have hparent : (r.parentOf cls).bind r.class? = some p := Option.mem_toList.1 hpar
    obtain ⟨pn, _, hpn⟩ := Option.bind_eq_some_iff.1 hparent
    -- the interface and the parent class have one key, so they are one class-like
    have hkey : nameKey n = nameKey pn := by
      rw [← lower_name_of_descriptor? hr hn, ← hr.lower_name_of_class? hpn, hxy]
    have hclass : r.class? n = some p := by rw [Registry.class?, hkey, ← Registry.class?, hpn]
    have hdp : d = p := Option.some.inj (hn.symm.trans (descriptor?_of_class? hclass))
    rw [hdp, hp p hparent] at hinterface
    cases hinterface

end Hierarchy

end ContractCheck
