import ContractCheck.Proofs.Exceptions.Chains
import ContractCheck.Proofs.Exceptions.Exploration
import ContractCheck.Proofs.Sample
import Mathlib.Data.List.Chain

/-!
Where the chains of a trace come from. Main statement: every chain of a trace names frames that call
each other in a row, from the analysed one down to one that throws the exception by itself, and goes
through no method twice.
-/
namespace ContractCheck

open Text

namespace Hierarchy

/-- Frames that call each other in a row, from a given one down to one that throws an exception by
itself, in some letter case. -/
structure Leads (h : Hierarchy) (f : Frame) (frames : List Frame) (exception : String) : Prop where
  first : frames.head? = some f
  calls : frames.IsChain h.Follows
  throws : ∃ g, frames.getLast? = some g ∧
    ∃ thrown, g.Throws h.registry thrown ∧ lower thrown = lower exception

theorem leads_self {h : Hierarchy} {f : Frame} {thrown exception : String}
    (ht : f.Throws h.registry thrown) (he : lower thrown = lower exception) :
    Leads h f [f] exception :=
  ⟨rfl, List.isChain_singleton f, f, rfl, thrown, ht, he⟩

theorem Leads.cons {h : Hierarchy} {f g : Frame} {frames : List Frame} {exception : String}
    (hl : Leads h g frames exception) (hf : h.Follows f g) : Leads h f (f :: frames) exception := by
  obtain ⟨last, hlast, hthrows⟩ := hl.throws
  refine ⟨rfl, hl.calls.cons ?_, last, ?_, hthrows⟩
  · intro g' hg'
    rw [hl.first, Option.mem_some_iff] at hg'
    exact hg' ▸ hf
  · rw [List.getLast?_cons, hlast]
    rfl

theorem Leads.congr {h : Hierarchy} {f : Frame} {frames : List Frame} {e e' : String}
    (hl : Leads h f frames e) (he : lower e = lower e') : Leads h f frames e' := by
  obtain ⟨g, hg, thrown, ht, hte⟩ := hl.throws
  exact ⟨hl.first, hl.calls, g, hg, thrown, ht, hte.trans he⟩

/-- All chains of a trace are real, and they go through no method twice and through none of some
methods that were entered before. -/
def Sound (h : Hierarchy) (f : Frame) (before : List String) (t : Trace) : Prop :=
  ∀ exception chain, t.Lists exception chain →
    ∃ frames, frames.map (·.method.qualifiedName) = chain ∧ Leads h f frames exception ∧
      (frames.map Frame.key).Nodup ∧ ∀ g ∈ frames, g.key ∉ before

theorem thrownHere_eq (h : Hierarchy) (f : Frame) (body : Syntax.Node) :
    h.thrownHere f body = Trace.addAll {}
      ((f.thrown h.registry body).map fun e => (e, [f.method.qualifiedName])) := by
  simp only [thrownHere, Trace.addAll, List.foldl_map]

theorem tidy_thrownHere (h : Hierarchy) (f : Frame) (body : Syntax.Node) :
    (h.thrownHere f body).Tidy := by
  rw [thrownHere_eq]
  exact Trace.tidy_addAll Trace.tidy_empty _

theorem sound_thrownHere {h : Hierarchy} {f : Frame} {body : Syntax.Node} {before : List String}
    (hb : f.method.body = some body) (hf : f.key ∉ before) :
    Sound h f before (h.thrownHere f body) := by
  intro exception chain hl
  rw [thrownHere_eq] at hl
  rcases Trace.lists_addAll Trace.tidy_empty hl with ⟨_, hm, _⟩ | ⟨p, hp, he, rfl⟩
  · simp at hm
  · obtain ⟨thrown, hthrown, rfl⟩ := List.mem_map.1 hp
    refine ⟨[f], rfl, leads_self ((Frame.throws_iff hb thrown).2 hthrown) he.symm, ?_, ?_⟩
    · simp
    · simpa using hf

/-- A callee's chains, led by the caller, are chains of the caller: the caller was entered before
the callee, so none of them goes through it. -/
theorem sound_addCallee {h : Hierarchy} {f g : Frame} {before entered : List String}
    {found callee : Trace} (ht : found.Tidy) (hs : Sound h f before found)
    (hc : Sound h g entered callee) (hfg : h.Follows f g) (hf : f.key ∉ before)
    (hin : f.key ∈ entered) (hsub : before ⊆ entered) :
    Sound h f before (found.addCallee f.method.qualifiedName callee) := by
  intro exception chain hl
  rcases Trace.lists_addCallee ht hl with hold | ⟨e, rest, hrest, he, rfl⟩
  · exact hs exception chain hold
  · obtain ⟨frames, rfl, hleads, hnodup, hfresh⟩ := hc e rest hrest
    refine ⟨f :: frames, rfl, (hleads.cons hfg).congr he.symm, ?_, ?_⟩
    · rw [List.map_cons, List.nodup_cons]
      refine ⟨?_, hnodup⟩
      intro hmem
      obtain ⟨x, hx, hkey⟩ := List.mem_map.1 hmem
      exact hfresh x hx (hkey ▸ hin)
    · intro x hx
      rcases List.mem_cons.1 hx with rfl | hx
      · exact hf
      · exact fun hb => hfresh x hx (hsub hb)

/-- A run keeps the chains of its frame real. The methods entered before the frame was are `before`;
they are still entered when its calls are followed. -/
theorem sound_of_explores {h : Hierarchy} {f : Frame} {edges : List CallEdge} {s t : Tracing}
    {arrivals : List Frame} (run : Explores h f edges s arrivals t) {body : Syntax.Node}
    (hb : f.method.body = some body) (he : edges ⊆ f.calls h.registry body) {before : List String}
    (hf : f.key ∉ before) (hin : f.key ∈ s.entered.keys) (hsub : before ⊆ s.entered.keys)
    (ht : s.found.Tidy) (hs : Sound h f before s.found) :
    t.found.Tidy ∧ Sound h f before t.found := by
  induction run generalizing body before with
  | done => exact ⟨ht, hs⟩
  | repeated hk rest ih => exact ih hb (List.subset_of_cons_subset he) hf hin hsub ht hs
  | unknown hk hc rest ih => exact ih hb (List.subset_of_cons_subset he) hf hin hsub ht hs
  | known hk hc hg rest ih => exact ih hb (List.subset_of_cons_subset he) hf hin hsub ht hs
  | @entered f g edge edges s t u body' inner arrivals hk hc hg hb' callee rest ihCallee ih =>
    have hkeys : s.entered.keys ⊆ (s.entered.insertNew g.key g).keys := fun k hk =>
      (Table.mem_keys_insertNew s.entered g.key k g).2 (Or.inl hk)
    have hown : g.key ∈ (s.entered.insertNew g.key g).keys :=
      (Table.mem_keys_insertNew s.entered g.key g.key g).2 (Or.inr rfl)
    obtain ⟨htidy, hsound⟩ := ihCallee hb' (List.Subset.refl _) hg hown hkeys
      (h.tidy_thrownHere g body') (sound_thrownHere hb' hg)
    have hafter : s.entered.keys ⊆ u.entered.keys :=
      List.Subset.trans hkeys (keys_subset_of_explores callee)
    have hfg : h.Follows f g := (follows_iff hb g).2 ⟨edge, he List.mem_cons_self, hc⟩
    exact ih hb (List.subset_of_cons_subset he) hf (hafter hin) (List.Subset.trans hsub hafter)
      (Trace.tidy_addCallee ht f.method.qualifiedName u.found)
      (sound_addCallee ht hs hsound hfg hf hin hsub)

theorem sound_of_analyzes {h : Hierarchy} {f : Frame} {arrivals : List Frame} {t : Trace}
    {entered : Entered} (run : Analyzes h f arrivals t entered) : t.Tidy ∧ Sound h f [] t := by
  cases run with
  | announced hb =>
    refine ⟨Trace.tidy_empty, ?_⟩
    rintro exception chain ⟨chains, hm, _⟩
    simp at hm
  | defined hb run =>
    apply sound_of_explores run hb (List.Subset.refl _) (List.not_mem_nil) ?_ (List.nil_subset _)
      (h.tidy_thrownHere f _) (sound_thrownHere hb List.not_mem_nil)
    exact (Table.mem_keys_insertNew {} f.key f.key f).2 (Or.inr rfl)

/-- The exceptions of a trace differ in more than letter case, no chain is listed twice under one of
them, and every chain starts with the analysed method, goes through no method twice in any letter
case, and names frames that call each other in a row, the last of which throws the exception by
itself. -/
theorem trace_chains_are_calls (h : Hierarchy) (f : Frame) :
    ((h.trace f).value.keys.map lower).Nodup ∧
    ∀ exception chains, (exception, chains) ∈ (h.trace f).value.entries →
      chains.Nodup ∧ ∀ chain ∈ chains,
        chain.head? = some f.method.qualifiedName ∧ (chain.map lower).Nodup ∧
        ∃ frames, frames.map (·.method.qualifiedName) = chain ∧ Leads h f frames exception := by
  obtain ⟨arrivals, run⟩ := h.analyzes_of_depth f h.length_methodKeys_lt_maxDepth
  obtain ⟨htidy, hsound⟩ := sound_of_analyzes run
  refine ⟨htidy.raised, ?_⟩
  intro exception chains hm
  refine ⟨(htidy.chains exception chains hm).2, ?_⟩
  intro chain hc
  obtain ⟨frames, rfl, hleads, hnodup, _⟩ := hsound exception chain ⟨chains, hm, hc⟩
  refine ⟨?_, ?_, frames, rfl, hleads⟩
  · rw [List.head?_map, hleads.first]
    rfl
  · rw [List.map_map]
    exact hnodup

def callCycle : Hierarchy :=
  ofRegistry (Sample.registry [Sample.classLike "class_declaration" "A" [] []
    [Sample.method "f" [Sample.callOnThis "g"],
      Sample.method "g" [Sample.callOnClass "self" "F", Sample.throwNew "E"]]])

def firstFrame? (h : Hierarchy) (name : String) : Option Frame := do
  let d ← h.registry.class? name
  let m ← d.methods.values.head?
  return ⟨m, some d⟩

theorem trace_chains_are_calls_cycle :
    ∃ f, callCycle.firstFrame? "A" = some f ∧
      ("E", [["A::f", "A::g"]]) ∈ (callCycle.trace f).value.entries ∧
      ∃ frames, frames.map (·.method.qualifiedName) = ["A::f", "A::g"] ∧
        Leads callCycle f frames "E" := by
  have hf : (callCycle.firstFrame? "A").isSome := by decide +kernel
  have hm : ∀ g ∈ callCycle.firstFrame? "A",
      ("E", [["A::f", "A::g"]]) ∈ (callCycle.trace g).value.entries := by decide +kernel
  obtain ⟨f, hf⟩ := Option.isSome_iff_exists.1 hf
  have hlisted := hm f hf
  obtain ⟨_, hchains⟩ := (trace_chains_are_calls callCycle f).2 _ _ hlisted
  exact ⟨f, hf, hlisted, (hchains _ List.mem_cons_self).2.2⟩

end Hierarchy

end ContractCheck
