import ContractCheck.Proofs.Exceptions.Provenance
import Mathlib.Logic.Relation

/-!
What an analysis leaves out: nothing. Main statement: the analysis ends, the frames it enters are
closed under calls up to the context, and the exceptions it gives are exactly those that the entered
frames throw by themselves.
-/
namespace ContractCheck

open Text

namespace Hierarchy

theorem mem_raised_thrownHere {h : Hierarchy} {f : Frame} {body : Syntax.Node}
    (hb : f.method.body = some body) (x : String) :
    x ∈ (h.thrownHere f body).raised ↔ ∃ e, f.Throws h.registry e ∧ lower e = x := by
  rw [thrownHere_eq, Trace.mem_raised_addAll Trace.tidy_empty]
  constructor
  · rintro (hx | ⟨p, hp, rfl⟩)
    · simp [Trace.raised, Table.keys] at hx
    · obtain ⟨e, he, rfl⟩ := List.mem_map.1 hp
      exact ⟨e, (Frame.throws_iff hb e).2 he, rfl⟩
  · rintro ⟨e, he, rfl⟩
    have hmem := (Frame.throws_iff hb e).1 he
    exact Or.inr ⟨_, List.mem_map.2 ⟨e, hmem, rfl⟩, rfl⟩

/-- What following the calls of a frame adds to a state: frames that were entered, all of them
called from the frame, whose callees were entered too, and whose exceptions were found. -/
structure Adds (h : Hierarchy) (f : Frame) (s t : Tracing) (new : List Frame) : Prop where
  entered : t.entered.entries = s.entered.entries ++ new.map fun x => (x.key, x)
  reached : ∀ x ∈ new, Relation.TransGen h.Follows f x
  closed : ∀ x ∈ new, ∀ g, h.Follows x g → g.key ∈ t.entered.keys
  tidy : t.found.Tidy
  raised : ∀ x, x ∈ t.found.raised ↔ x ∈ s.found.raised ∨
    ∃ g ∈ new, ∃ e, g.Throws h.registry e ∧ lower e = x

theorem Adds.keys_subset {h : Hierarchy} {f : Frame} {s t : Tracing} {new : List Frame}
    (ha : Adds h f s t new) : s.entered.keys ⊆ t.entered.keys := by
  intro k hk
  rw [Table.keys, ha.entered, List.map_append]
  exact List.mem_append_left _ hk

theorem adds_nothing {h : Hierarchy} {f : Frame} {s : Tracing} (ht : s.found.Tidy) :
    Adds h f s s [] :=
  ⟨by simp, by simp, by simp, ht, by simp⟩

/-- A state that differs only in which calls were followed has the same to add. -/
theorem Adds.of_followed {h : Hierarchy} {f : Frame} {s t : Tracing} {new : List Frame}
    {followed : List (String × String)} (ha : Adds h f { s with followed } t new) :
    Adds h f s t new :=
  ⟨ha.entered, ha.reached, ha.closed, ha.tidy, ha.raised⟩

/-- A callee that is entered adds itself, what its own calls add, and what is added after it. -/
theorem Adds.callee {h : Hierarchy} {f g : Frame} {s t u : Tracing} {body : Syntax.Node}
    {followed : List (String × String)} {inner outer : List Frame} (hfg : h.Follows f g)
    (hg : g.key ∉ s.entered.keys) (hb : g.method.body = some body) (ht : s.found.Tidy)
    (hcalls : ∀ x, h.Follows g x → x.key ∈ u.entered.keys)
    (hinner : Adds h g { found := h.thrownHere g body, entered := s.entered.insertNew g.key g } u
      inner)
    (houter : Adds h f ⟨s.found.addCallee f.method.qualifiedName u.found, followed, u.entered⟩ t
      outer) : Adds h f s t (g :: (inner ++ outer)) := by
  have hsub : u.entered.keys ⊆ t.entered.keys := houter.keys_subset
  refine ⟨?_, ?_, ?_, houter.tidy, ?_⟩
  · rw [houter.entered, hinner.entered, Table.entries_insertNew hg]
    simp
  · intro x hx
    rcases List.mem_cons.1 hx with rfl | hx
    · exact .single hfg
    · rcases List.mem_append.1 hx with hx | hx
      · exact .head hfg (hinner.reached x hx)
      · exact houter.reached x hx
  · intro x hx y hxy
    rcases List.mem_cons.1 hx with rfl | hx
    · exact hsub (hcalls y hxy)
    · rcases List.mem_append.1 hx with hx | hx
      · exact hsub (hinner.closed x hx y hxy)
      · exact houter.closed x hx y hxy
  · intro x
    rw [houter.raised, Trace.mem_raised_addCallee ht hinner.tidy, hinner.raised,
      mem_raised_thrownHere hb]
    simp only [List.mem_cons, List.mem_append, or_and_right, exists_or, exists_eq_left, or_assoc]

def Settled (h : Hierarchy) (f : Frame) (s : Tracing) : Prop :=
  ∀ edge : CallEdge, edge.key ∈ s.followed → ∀ g, (h.callee? f edge).value = some g →
    g.key ∈ s.entered.keys

theorem Settled.follow {h : Hierarchy} {f : Frame} {s t : Tracing} {edge : CallEdge}
    (hs : Settled h f s) (hfollowed : t.followed = edge.key :: s.followed)
    (hsub : s.entered.keys ⊆ t.entered.keys)
    (hc : ∀ g, (h.callee? f edge).value = some g → g.key ∈ t.entered.keys) : Settled h f t := by
  intro edge' hk g hg
  rw [hfollowed] at hk
  rcases List.mem_cons.1 hk with hk | hk
  · exact hc g ((h.callee?_congr f hk) ▸ hg)
  · exact hsub (hs edge' hk g hg)

/-- A run enters all callees of the calls it is given, and adds only frames whose callees are
entered in the end. A call that is not followed again was followed before, so that its callee is
entered by then. -/
theorem adds_of_explores {h : Hierarchy} {f : Frame} {edges : List CallEdge} {s t : Tracing}
    {arrivals : List Frame} (run : Explores h f edges s arrivals t) {body : Syntax.Node}
    (hb : f.method.body = some body) (he : edges ⊆ f.calls h.registry body)
    (ht : s.found.Tidy) (hs : Settled h f s) :
    (∀ edge ∈ edges, ∀ g, (h.callee? f edge).value = some g → g.key ∈ t.entered.keys) ∧
      ∃ new, Adds h f s t new := by
  induction run generalizing body with
  | done => exact ⟨by simp, [], adds_nothing ht⟩
  | @repeated f edge edges s t arrivals hk rest ih =>
    obtain ⟨hcalls, new, ha⟩ := ih hb (List.subset_of_cons_subset he) ht hs
    refine ⟨?_, new, ha⟩
    intro edge' hin g hg
    rcases List.mem_cons.1 hin with rfl | hin
    · exact ha.keys_subset (hs edge' hk g hg)
    · exact hcalls edge' hin g hg
  | @unknown f edge edges s t arrivals hk hc rest ih =>
    have hs' : Settled h f { s with followed := edge.key :: s.followed } :=
      hs.follow rfl (List.Subset.refl _) (by simp [hc])
    obtain ⟨hcalls, new, ha⟩ := ih hb (List.subset_of_cons_subset he) ht hs'
    refine ⟨?_, new, ha.of_followed⟩
    intro edge' hin g hg
    rcases List.mem_cons.1 hin with rfl | hin
    · simp [hc] at hg
    · exact hcalls edge' hin g hg
  | @known f g edge edges s t arrivals hk hc hg rest ih =>
    have hs' : Settled h f { s with followed := edge.key :: s.followed } := by
      refine hs.follow rfl (List.Subset.refl _) ?_
      intro g' hg'
      rw [hc, Option.some.injEq] at hg'
      exact hg' ▸ hg
    obtain ⟨hcalls, new, ha⟩ := ih hb (List.subset_of_cons_subset he) ht hs'
    refine ⟨?_, new, ha.of_followed⟩
    intro edge' hin g' hg'
    rcases List.mem_cons.1 hin with rfl | hin
    · rw [hc, Option.some.injEq] at hg'
      exact ha.keys_subset (hg' ▸ hg)
    · exact hcalls edge' hin g' hg'
  | @entered f g edge edges s t u body' inner arrivals hk hc hg hb' callee rest ihCallee ih =>
    have hempty : Settled h g
        { found := h.thrownHere g body', entered := s.entered.insertNew g.key g } := by
      intro edge' hk'
      simp at hk'
    obtain ⟨hcallees, inner', hinner⟩ :=
      ihCallee hb' (List.Subset.refl _) (h.tidy_thrownHere g body') hempty
    have hgu : g.key ∈ u.entered.keys :=
      hinner.keys_subset ((Table.mem_keys_insertNew s.entered g.key g.key g).2 (Or.inr rfl))
    have hsu : s.entered.keys ⊆ u.entered.keys := fun k hk =>
      hinner.keys_subset ((Table.mem_keys_insertNew s.entered g.key k g).2 (Or.inl hk))
    have hs' : Settled h f
        ⟨s.found.addCallee f.method.qualifiedName u.found, edge.key :: s.followed, u.entered⟩ := by
      refine hs.follow rfl hsu ?_
      intro g' hg'
      rw [hc, Option.some.injEq] at hg'
      exact hg' ▸ hgu
    obtain ⟨hcalls, outer, houter⟩ := ih hb (List.subset_of_cons_subset he)
      (Trace.tidy_addCallee ht f.method.qualifiedName u.found) hs'
    have hfg : h.Follows f g := (follows_iff hb g).2 ⟨edge, he List.mem_cons_self, hc⟩
    have hclosed : ∀ x, h.Follows g x → x.key ∈ u.entered.keys := by
      intro x hx
      obtain ⟨edge', hin, hx'⟩ := (follows_iff hb' x).1 hx
      exact hcallees edge' hin x hx'
    refine ⟨?_, _, Adds.callee hfg hg hb' ht hclosed hinner houter⟩
    intro edge' hin g' hg'
    rcases List.mem_cons.1 hin with rfl | hin
    · rw [hc, Option.some.injEq] at hg'
      exact houter.keys_subset (hg' ▸ hgu)
    · exact hcalls edge' hin g' hg'

structure Covers (h : Hierarchy) (root : Frame) (found : Trace) (entered : Entered) : Prop where
  start : entered.find? root.key = some root
  keys : entered.keys = entered.values.map Frame.key
  reached : ∀ f ∈ entered.values, Relation.ReflTransGen h.Follows root f
  closed : ∀ f ∈ entered.values, ∀ g, h.Follows f g → g.key ∈ entered.keys
  raised : ∀ e, (∃ k ∈ found.keys, lower k = lower e) ↔
    ∃ f ∈ entered.values, ∃ thrown, f.Throws h.registry thrown ∧ lower thrown = lower e

theorem covers_of_frames {h : Hierarchy} {root : Frame} {found : Trace} {entered : Entered}
    {new : List Frame} (he : entered.entries = (root :: new).map fun x => (x.key, x))
    (hreached : ∀ f ∈ new, Relation.TransGen h.Follows root f)
    (hclosed : ∀ f ∈ root :: new, ∀ g, h.Follows f g → g.key ∈ entered.keys)
    (hraised : ∀ x, x ∈ found.raised ↔
      ∃ f ∈ root :: new, ∃ thrown, f.Throws h.registry thrown ∧ lower thrown = x) :
    Covers h root found entered := by
  have hvalues : entered.values = root :: new := by
    rw [Table.values, he, List.map_map]
    exact List.map_id _
  refine ⟨?_, ?_, ?_, ?_, ?_⟩
  · simp [Table.find?, he]
  · rw [hvalues, Table.keys, he, List.map_map]
    rfl
  · intro f hf
    rw [hvalues] at hf
    rcases List.mem_cons.1 hf with rfl | hf
    · exact .refl
    · exact (hreached f hf).to_reflTransGen
  · rw [hvalues]
    exact hclosed
  · intro e
    rw [hvalues, ← hraised]
    exact List.mem_map.symm

theorem covers_of_analyzes {h : Hierarchy} {f : Frame} {arrivals : List Frame} {found : Trace}
    {entered : Entered} (run : Analyzes h f arrivals found entered) : Covers h f found entered := by
  have hnew : f.key ∉ Table.keys ({} : Entered) := by simp [Table.keys]
  cases run with
  | announced hb =>
    have hentries : (Table.insertNew {} f.key f).entries = [f].map fun x => (x.key, x) := by
      rw [Table.entries_insertNew hnew]
      rfl
    refine covers_of_frames hentries ?_ ?_ ?_
    · simp
    · rintro x hx g ⟨body, hbody, _⟩
      rw [List.mem_singleton.1 hx, hb] at hbody
      cases hbody
    · simp [Trace.raised, Table.keys, Frame.not_throws_of_no_body hb]
  | @defined body arrivals t hb run =>
    have hempty : Settled h f
        { found := h.thrownHere f body, entered := Table.insertNew {} f.key f } := by
      intro edge hk
      simp at hk
    obtain ⟨hcalls, new, ha⟩ :=
      adds_of_explores run hb (List.Subset.refl _) (h.tidy_thrownHere f body) hempty
    refine covers_of_frames ?_ ha.reached ?_ ?_
    · rw [ha.entered, Table.entries_insertNew hnew]
      rfl
    · intro x hx g hg
      rcases List.mem_cons.1 hx with rfl | hx
      · obtain ⟨edge, hin, hc⟩ := (follows_iff hb g).1 hg
        exact hcalls edge hin g hc
      · exact ha.closed x hx g hg
    · intro x
      rw [ha.raised, mem_raised_thrownHere hb]
      simp only [List.mem_cons, or_and_right, exists_or, exists_eq_left]

theorem entered_of_analyzes {h : Hierarchy} {f : Frame} {arrivals : List Frame} {found : Trace}
    {entered : Entered} (run : Analyzes h f arrivals found entered) :
    entered = firstFrames {} arrivals := by
  cases run with
  | announced => rfl
  | defined hb run => exact entered_of_explores run

/-- The analysis of a frame ends: it is a finite run, and no depth beyond the given one changes it.
Each method is entered in the first frame that arrives at it. The analysed frame is entered, with
every frame that is entered all methods that it calls are, and the exceptions found are those that
the entered frames throw by themselves. -/
theorem analysis_ends_and_covers (h : Hierarchy) (root : Frame) :
    ∃ arrivals entered, Analyzes h root arrivals (h.trace root).value entered ∧
      (∀ depth, h.maxDepth ≤ depth →
        (h.analyze depth root {}).value = ((h.trace root).value, entered)) ∧
      entered = firstFrames {} arrivals ∧ entered.keys.Nodup ∧
      Covers h root (h.trace root).value entered := by
  obtain ⟨arrivals, run⟩ := h.analyzes_of_depth root h.length_methodKeys_lt_maxDepth
  refine ⟨arrivals, _, run, ?_, entered_of_analyzes run, ?_, covers_of_analyzes run⟩
  · intro depth hd
    exact h.analyze_eq_of_maxDepth_le root hd
  · rw [entered_of_analyzes run]
    exact nodup_keys_firstFrames (by simp [Table.keys]) arrivals

theorem analysis_ends_and_covers_cycle :
    ∃ f entered, callCycle.firstFrame? "A" = some f ∧ callCycle.maxDepth ≤ 100 ∧
      (callCycle.analyze 100 f {}).value = ((callCycle.trace f).value, entered) ∧
      entered.keys = ["a::f", "a::g"] ∧ Covers callCycle f (callCycle.trace f).value entered := by
  have hsome : (callCycle.firstFrame? "A").isSome := by decide +kernel
  have hkeys : ∀ g ∈ callCycle.firstFrame? "A",
      (callCycle.analyze 100 g {}).value.2.keys = ["a::f", "a::g"] := by decide +kernel
  have hdepth : callCycle.maxDepth ≤ 100 := by decide +kernel
  obtain ⟨f, hf⟩ := Option.isSome_iff_exists.1 hsome
  obtain ⟨_, entered, _, hends, _, _, hcovers⟩ := analysis_ends_and_covers callCycle f
  refine ⟨f, entered, hf, hdepth, hends 100 hdepth, ?_, hcovers⟩
  rw [← hkeys f hf, hends 100 hdepth]

end Hierarchy

end ContractCheck
