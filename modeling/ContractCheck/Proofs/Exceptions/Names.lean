import ContractCheck.Proofs.Exceptions.Coverage
import ContractCheck.Proofs.Hierarchy.OwnMethods
import ContractCheck.Proofs.Hierarchy.Resolution
import ContractCheck.Proofs.Text.Dedupe

/-!
The exceptions that declared methods announce or throw have full names.
-/
namespace ContractCheck

open Text

namespace Registry

variable {r : Registry}

theorem unslashed_owner (hr : r.WellKeyed) {m : Method} (hm : r.Declares m) : Unslashed m.owner := by
  obtain ⟨name, d, hd, hm⟩ := hm
  obtain ⟨k, hk⟩ := (d.methods.mem_values_iff m).1 hm
  have howner : m.owner = d.name := ((hr.read_of_find? hd).methods _ hk).2
  rw [howner]
  exact hr.unslashed_of_class? hd

/-- In a method of a trait names stand for what they do in the trait, but the class is the one that
the method runs on. -/
theorem methodScope_of_trait {m : Method} {trait : ClassDecl}
    (htrait : r.class? m.owner = some trait) (hkind : trait.kind = .trait) (cls : ClassDecl) :
    r.methodScope m (some cls) = ⟨trait.namespaceName, trait.imports, some cls.name,
      (r.parentOf cls).map ("\\" ++ ·)⟩ := by
  simp only [methodScope, htrait, hkind]

theorem canonical_methodScope (hr : r.WellKeyed) {m : Method} (hm : r.Declares m)
    {context : Option ClassDecl} (hc : ∀ c ∈ context, ∃ n, r.class? n = some c) :
    (r.methodScope m context).Canonical := by
  rw [methodScope]
  split
  · refine ⟨?_, nofun⟩
    intro name hname
    cases hname
    exact unslashed_owner hr hm
  · rename_i owner howner
    split
    · rename_i c _
      obtain ⟨n, hn⟩ := hc c rfl
      refine ⟨?_, (hr.read_of_find? howner).imports⟩
      intro name hname
      cases hname
      exact hr.unslashed_of_class? hn
    · exact canonical_scope_of_class? hr howner

theorem nodup_announced (r : Registry) (m : Method) : (r.announced m).Nodup :=
  nodup_dedupeFrom _ _

theorem unslashed_of_mem_announced (hr : r.WellKeyed) {m : Method} (hm : r.Offered m) {e : String}
    (he : e ∈ r.announced m) : Unslashed e := by
  have hnames := (mem_of_mem_dedupeFrom he).1
  cases hm with
  | inl hm =>
    obtain ⟨written, _, rfl⟩ := List.mem_map.1 hnames
    exact unslashed_resolve hr (canonical_methodScope hr hm (by simp)) written
  | inr hm =>
    have hnone : Docblock.thrownNames "" = [] := by decide +kernel
    simp [hm, hnone] at hnames

end Registry

structure Frame.Declared (r : Registry) (f : Frame) : Prop where
  method : r.Declares f.method
  context : ∀ c ∈ f.context, ∃ n, r.class? n = some c

theorem Frame.declared_of_class? {r : Registry} {m : Method} (hm : r.Declares m) {name : String}
    {cls : ClassDecl} (hc : r.class? name = some cls) : (⟨m, some cls⟩ : Frame).Declared r := by
  refine ⟨hm, ?_⟩
  intro c hin
  cases hin
  exact ⟨name, hc⟩

theorem Frame.unslashed_of_throws {r : Registry} (hr : r.WellKeyed) {f : Frame} (hf : f.Declared r)
    {e : String} (he : f.Throws r e) : Unslashed e := by
  have hscope : (f.scope r).Canonical := Registry.canonical_methodScope hr hf.method hf.context
  obtain ⟨body, _, place, _, _, he⟩ := he
  rw [Body.thrownAt] at he
  split at he
  · cases he
  · split at he
    · obtain ⟨name, _, rfl⟩ := Option.map_eq_some_iff.1 (Option.mem_toList.1 he)
      exact Registry.unslashed_resolve hr hscope name
    · split at he
      · split at he
        · obtain ⟨name, _, rfl⟩ := List.mem_map.1 he
          exact Registry.unslashed_resolve hr hscope name
        · cases he
      · cases he

namespace Hierarchy

theorem declared_of_follows {h : Hierarchy} {f g : Frame} (hf : f.Declared h.registry)
    (hfg : h.Follows f g) : g.Declared h.registry := by
  obtain ⟨body, _, edge, _, named, hnamed, hm, hb, hcontext⟩ := hfg
  refine ⟨declares_of_findMethod hnamed hm hb, ?_⟩
  intro c hc
  rw [hcontext, Option.mem_some_iff] at hc
  -- the callee runs on the class of the caller or on the one that the call names
  cases hctx : f.context with
  | none =>
    rw [hctx] at hc
    obtain rfl : named = c := hc
    exact ⟨_, hnamed⟩
  | some d =>
    rw [hctx, calleeContext, Traced.value_bind] at hc
    split at hc
    · obtain rfl : d = c := hc
      exact hf.context d hctx
    · obtain rfl : named = c := hc
      exact ⟨_, hnamed⟩

theorem declared_of_reached {h : Hierarchy} {f g : Frame} (hf : f.Declared h.registry)
    (hfg : Relation.ReflTransGen h.Follows f g) : g.Declared h.registry := by
  induction hfg with
  | refl => exact hf
  | tail _ hstep ih => exact declared_of_follows ih hstep

theorem unslashed_of_mem_trace {h : Hierarchy} (hr : h.registry.WellKeyed) {f : Frame}
    (hf : f.Declared h.registry) {e : String} (he : e ∈ (h.trace f).value.keys) : Unslashed e := by
  obtain ⟨_, run⟩ := h.analyzes_of_depth f h.length_methodKeys_lt_maxDepth
  have hcovers := covers_of_analyzes run
  obtain ⟨g, hg, thrown, hthrown, hlower⟩ := (hcovers.raised e).1 ⟨e, he, rfl⟩
  have hdeclared := declared_of_reached hf (hcovers.reached g hg)
  exact unslashed_congr hlower (Frame.unslashed_of_throws hr hdeclared hthrown)

theorem nodup_keys_trace (h : Hierarchy) (f : Frame) : (h.trace f).value.keys.Nodup := by
  obtain ⟨_, run⟩ := h.analyzes_of_depth f h.length_methodKeys_lt_maxDepth
  exact (sound_of_analyzes run).1.keys

end Hierarchy

end ContractCheck
