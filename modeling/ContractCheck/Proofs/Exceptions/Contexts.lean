import ContractCheck.Proofs.Exceptions.Coverage

/-!
Methods that are called on several classes. An analysis enters a method once, in the first frame
that arrives, and what `$this` means there may differ in the others. Main statement: no exception
is missed of a frame that is reached through methods that do the same in all their frames.
-/
namespace ContractCheck

open Text Relation

namespace Frame

def thrownBy (r : Registry) (f : Frame) : List String :=
  (f.method.body.map (f.thrown r)).getD []

theorem throws_iff_mem_thrownBy (r : Registry) (f : Frame) (exception : String) :
    f.Throws r exception ↔ exception ∈ f.thrownBy r := by
  cases hb : f.method.body with
  | none => simp [thrownBy, hb, not_throws_of_no_body hb]
  | some body => simp [thrownBy, hb, throws_iff hb]

def edges (r : Registry) (f : Frame) : List CallEdge :=
  (f.method.body.map (f.calls r)).getD []

end Frame

namespace Hierarchy

variable {h : Hierarchy}

def callees (h : Hierarchy) (f : Frame) : List Frame :=
  (f.edges h.registry).filterMap fun edge => (h.callee? f edge).value

theorem follows_iff_mem_callees (h : Hierarchy) (f g : Frame) :
    h.Follows f g ↔ g ∈ h.callees f := by
  cases hb : f.method.body with
  | none => simp [callees, Frame.edges, Follows, hb]
  | some body => simp [callees, Frame.edges, hb, follows_iff hb]

def Reports (h : Hierarchy) (root : Frame) (exception : String) : Prop :=
  ∃ e ∈ (h.trace root).value.keys, lower e = lower exception

/-- Whatever a frame throws and whichever methods it calls, another one does so too. -/
structure Matches (h : Hierarchy) (f g : Frame) : Prop where
  throws : ∀ e, f.Throws h.registry e → ∃ e', g.Throws h.registry e' ∧ lower e' = lower e
  calls : ∀ x, h.Follows f x → ∃ y, h.Follows g y ∧ y.key = x.key

theorem Matches.refl (h : Hierarchy) (f : Frame) : h.Matches f f :=
  ⟨fun e he => ⟨e, he, rfl⟩, fun x hx => ⟨x, hx, rfl⟩⟩

/-- Every frame of the same method that is reached does at least what the frame does. -/
def Steady (h : Hierarchy) (root f : Frame) : Prop :=
  ∀ g, ReflTransGen h.Follows root g → g.key = f.key → h.Matches f g

inductive ReachesSteadily (h : Hierarchy) (root : Frame) : Frame → Prop
  | root : ReachesSteadily h root root
  | call {f g : Frame} (hf : ReachesSteadily h root f) (hfg : h.Follows f g)
      (hg : h.Steady root g) : ReachesSteadily h root g

theorem reachesSteadily_of_all_steady {root f : Frame}
    (hall : ∀ g, ReflTransGen h.Follows root g → h.Steady root g)
    (hf : ReflTransGen h.Follows root f) : h.ReachesSteadily root f := by
  induction hf with
  | refl => exact .root
  | tail hreach hstep ih => exact .call ih hstep (hall _ (hreach.tail hstep))

theorem exists_entered_of_key {root : Frame} {found : Trace} {entered : Entered}
    (hc : Covers h root found entered) {key : String} (hk : key ∈ entered.keys) :
    ∃ f ∈ entered.values, f.key = key := by
  rw [hc.keys] at hk
  exact List.mem_map.1 hk

/-- A frame that is reached steadily is matched by one that is entered. -/
theorem exists_entered_matching {root : Frame} {found : Trace} {entered : Entered}
    (hc : Covers h root found entered) {f : Frame} (hf : h.ReachesSteadily root f) :
    ∃ g ∈ entered.values, g.key = f.key ∧ h.Matches f g := by
  induction hf with
  | root => exact ⟨root, Table.mem_values_of_find? hc.start, rfl, Matches.refl h root⟩
  | @call f x _ hfx hx ih =>
    obtain ⟨g, hg, _, hmatches⟩ := ih
    -- the entered frame calls the same method, so that method is entered, in some frame
    obtain ⟨y, hgy, hkey⟩ := hmatches.calls x hfx
    obtain ⟨z, hz, hzkey⟩ := exists_entered_of_key hc (hc.closed g hg y hgy)
    have hsame : z.key = x.key := hzkey.trans hkey
    exact ⟨z, hz, hsame, hx z (hc.reached z hz) hsame⟩

theorem covers_trace (h : Hierarchy) (root : Frame) :
    ∃ entered, Covers h root (h.trace root).value entered := by
  obtain ⟨_, run⟩ := h.analyzes_of_depth root h.length_methodKeys_lt_maxDepth
  exact ⟨_, covers_of_analyzes run⟩

theorem reports_of_reachesSteadily {root f : Frame} (hf : h.ReachesSteadily root f) {e : String}
    (he : f.Throws h.registry e) : h.Reports root e := by
  obtain ⟨entered, hc⟩ := h.covers_trace root
  obtain ⟨g, hg, _, hmatches⟩ := exists_entered_matching hc hf
  obtain ⟨e', he', hlower⟩ := hmatches.throws e he
  exact (hc.raised e).2 ⟨g, hg, e', he', hlower⟩

theorem throws_of_reports {root : Frame} {e : String} (he : h.Reports root e) :
    ∃ f, ReflTransGen h.Follows root f ∧ ∃ e', f.Throws h.registry e' ∧ lower e' = lower e := by
  obtain ⟨entered, hc⟩ := h.covers_trace root
  obtain ⟨f, hf, hthrows⟩ := (hc.raised e).1 he
  exact ⟨f, hc.reached f hf, hthrows⟩

/-- Frames of two programs that correspond to each other, throw the same exceptions and make the
same calls, in whatever order. Frames of one method correspond to frames of one method. -/
structure SameCalls (h h' : Hierarchy) (R : Frame → Frame → Prop) : Prop where
  key : ∀ f f' g g', R f f' → R g g' → (f.key = g.key ↔ f'.key = g'.key)
  throws : ∀ f f', R f f' → ∀ e, f.Throws h.registry e ↔ f'.Throws h'.registry e
  forth : ∀ f f', R f f' → ∀ g, h.Follows f g → ∃ g', h'.Follows f' g' ∧ R g g'
  back : ∀ f f', R f f' → ∀ g', h'.Follows f' g' → ∃ g, h.Follows f g ∧ R g g'

section

variable {h' : Hierarchy} {R : Frame → Frame → Prop} {root root' : Frame}

theorem SameCalls.symm (hR : SameCalls h h' R) : SameCalls h' h fun f' f => R f f' where
  key f' f g' g hf hg := (hR.key f f' g g' hf hg).symm
  throws f' f hf e := (hR.throws f f' hf e).symm
  forth f' f hf := hR.back f f' hf
  back f' f hf := hR.forth f f' hf

theorem SameCalls.reached (hR : SameCalls h h' R) (hroot : R root root') {f : Frame}
    (hf : ReflTransGen h.Follows root f) : ∃ f', ReflTransGen h'.Follows root' f' ∧ R f f' := by
  induction hf with
  | refl => exact ⟨root', .refl, hroot⟩
  | tail _ hstep ih =>
    obtain ⟨f', hf', hff'⟩ := ih
    obtain ⟨g', hg', hgg'⟩ := hR.forth _ _ hff' _ hstep
    exact ⟨g', hf'.tail hg', hgg'⟩

theorem SameCalls.matches (hR : SameCalls h h' R) {f g f' g' : Frame} (hf : R f f') (hg : R g g')
    (hfg : h.Matches f g) : h'.Matches f' g' := by
  refine ⟨?_, ?_⟩
  · intro e he
    obtain ⟨e', he', hlower⟩ := hfg.throws e ((hR.throws f f' hf e).2 he)
    exact ⟨e', (hR.throws g g' hg e').1 he', hlower⟩
  · intro x' hx'
    obtain ⟨x, hx, hxx'⟩ := hR.back f f' hf x' hx'
    obtain ⟨y, hy, hkey⟩ := hfg.calls x hx
    obtain ⟨y', hy', hyy'⟩ := hR.forth g g' hg y hy
    exact ⟨y', hy', (hR.key y y' x x' hyy' hxx').1 hkey⟩

theorem SameCalls.steady (hR : SameCalls h h' R) (hroot : R root root')
    (hall : ∀ f, ReflTransGen h.Follows root f → h.Steady root f) {f' : Frame}
    (hf' : ReflTransGen h'.Follows root' f') : h'.Steady root' f' := by
  intro g' hg' hkey
  obtain ⟨f, hf, hff'⟩ := hR.symm.reached hroot hf'
  obtain ⟨g, hg, hgg'⟩ := hR.symm.reached hroot hg'
  have hsame : g.key = f.key := (hR.key g g' f f' hgg' hff').2 hkey
  exact hR.matches hff' hgg' (hall f hf g hg hsame)

theorem SameCalls.reports (hR : SameCalls h h' R) (hroot : R root root')
    (hall : ∀ f, ReflTransGen h.Follows root f → h.Steady root f) {e : String}
    (he : h.Reports root e) : h'.Reports root' e := by
  obtain ⟨f, hf, thrown, hthrown, hlower⟩ := throws_of_reports he
  obtain ⟨f', hf', hff'⟩ := hR.reached hroot hf
  have hsteadily := reachesSteadily_of_all_steady (fun g' hg' => hR.steady hroot hall hg') hf'
  have hthrown' := (hR.throws f f' hff' thrown).1 hthrown
  obtain ⟨e', he', hlower'⟩ := reports_of_reachesSteadily hsteadily hthrown'
  exact ⟨e', he', hlower'.trans hlower⟩

end

def isMatched (h : Hierarchy) (f g : Frame) : Bool :=
  (f.thrownBy h.registry).all (fun e => ((g.thrownBy h.registry).map lower).contains (lower e)) &&
    (h.callees f).all fun x => ((h.callees g).map Frame.key).contains x.key

theorem matches_of_isMatched {f g : Frame} (hfg : h.isMatched f g = true) : h.Matches f g := by
  simp only [isMatched, Bool.and_eq_true, List.all_eq_true, List.contains_iff_mem] at hfg
  obtain ⟨hthrows, hcalls⟩ := hfg
  refine ⟨?_, ?_⟩
  · intro e he
    obtain ⟨e', he', hlower⟩ :=
      List.mem_map.1 (hthrows e ((f.throws_iff_mem_thrownBy _ e).1 he))
    exact ⟨e', (g.throws_iff_mem_thrownBy _ e').2 he', hlower⟩
  · intro x hx
    obtain ⟨y, hy, hkey⟩ := List.mem_map.1 (hcalls x ((h.follows_iff_mem_callees f x).1 hx))
    exact ⟨y, (h.follows_iff_mem_callees g y).2 hy, hkey⟩

def endsWithin (h : Hierarchy) : Nat → Frame → Bool
  | 0, f => (h.callees f).isEmpty
  | n + 1, f => (h.callees f).all (h.endsWithin n)

def reachedWithin (h : Hierarchy) : Nat → Frame → List Frame
  | 0, f => [f]
  | n + 1, f => f :: (h.callees f).flatMap (h.reachedWithin n)

theorem mem_reachedWithin {n : Nat} {root f : Frame} (hend : h.endsWithin n root = true)
    (hf : ReflTransGen h.Follows root f) : f ∈ h.reachedWithin n root := by
  induction n generalizing root with
  | zero =>
    cases ReflTransGen.cases_head hf with
    | inl heq => simp [reachedWithin, heq]
    | inr hstep =>
      obtain ⟨g, hg, _⟩ := hstep
      rw [endsWithin, List.isEmpty_iff] at hend
      rw [follows_iff_mem_callees, hend] at hg
      cases hg
  | succ n ih =>
    cases ReflTransGen.cases_head hf with
    | inl heq => simp [reachedWithin, heq]
    | inr hstep =>
      obtain ⟨g, hg, hgf⟩ := hstep
      rw [follows_iff_mem_callees] at hg
      rw [endsWithin, List.all_eq_true] at hend
      exact List.mem_cons_of_mem root (List.mem_flatMap.2 ⟨g, hg, ih (hend g hg) hgf⟩)

theorem reached_of_mem_reachedWithin {n : Nat} {root f : Frame} (hf : f ∈ h.reachedWithin n root) :
    ReflTransGen h.Follows root f := by
  induction n generalizing root with
  | zero =>
    rw [List.mem_singleton.1 hf]
  | succ n ih =>
    cases List.mem_cons.1 hf with
    | inl heq => rw [heq]
    | inr hin =>
      obtain ⟨g, hg, hgf⟩ := List.mem_flatMap.1 hin
      exact .head ((h.follows_iff_mem_callees root g).2 hg) (ih hgf)

theorem mem_reachedWithin_callees {n : Nat} {root f : Frame}
    (hend : h.endsWithin (n + 1) root = true) (hf : TransGen h.Follows root f) :
    f ∈ (h.callees root).flatMap (h.reachedWithin n) := by
  obtain ⟨g, hg, hgf⟩ := TransGen.head'_iff.1 hf
  rw [follows_iff_mem_callees] at hg
  rw [endsWithin, List.all_eq_true] at hend
  exact List.mem_flatMap.2 ⟨g, hg, mem_reachedWithin (hend g hg) hgf⟩

def steadyWithin (h : Hierarchy) (n : Nat) (root : Frame) : Bool :=
  h.endsWithin n root &&
    (h.reachedWithin n root).all fun f =>
      (h.reachedWithin n root).all fun g => g.key != f.key || h.isMatched f g

theorem steady_of_steadyWithin {n : Nat} {root : Frame} (hn : h.steadyWithin n root = true)
    (f : Frame) (hf : ReflTransGen h.Follows root f) : h.Steady root f := by
  simp only [steadyWithin, Bool.and_eq_true, List.all_eq_true, Bool.or_eq_true, bne_iff_ne] at hn
  intro g hg hkey
  cases hn.2 f (mem_reachedWithin hn.1 hf) g (mem_reachedWithin hn.1 hg) with
  | inl hne => exact absurd hkey hne
  | inr hmatched => exact matches_of_isMatched hmatched

/-- Frames on one class that make calls of the same keys, in any order, follow the same frames. -/
theorem follows_of_perm {f g : Frame} (hcontext : f.context = g.context)
    (hperm : ((f.edges h.registry).map CallEdge.key).Perm ((g.edges h.registry).map CallEdge.key))
    {x : Frame} (hx : h.Follows f x) : h.Follows g x := by
  simp only [follows_iff_mem_callees, callees, List.mem_filterMap] at hx ⊢
  obtain ⟨edge, hedge, hcallee⟩ := hx
  obtain ⟨edge', hedge', hkey⟩ :=
    List.mem_map.1 (hperm.mem_iff.1 (List.mem_map.2 ⟨edge, hedge, rfl⟩))
  refine ⟨edge', hedge', ?_⟩
  rw [h.callee?_congr g hkey]
  rw [callee?_eq_some_iff] at hcallee ⊢
  rwa [← hcontext]

inductive Swaps (h : Hierarchy) (f g : Frame) : Frame → Frame → Prop
  | callers : Swaps h f g f g
  | reached {x : Frame} (hx : TransGen h.Follows f x) : Swaps h f g x x

/-- Calls may be made in any order by a method that does not call itself. -/
theorem sameCalls_of_perm {f g : Frame} (hcontext : f.context = g.context)
    (hperm : ((f.edges h.registry).map CallEdge.key).Perm ((g.edges h.registry).map CallEdge.key))
    (hthrows : f.thrownBy h.registry = g.thrownBy h.registry)
    (hkeys : ∀ x, TransGen h.Follows f x → x.key ≠ f.key ∧ x.key ≠ g.key) :
    SameCalls h h (h.Swaps f g) := by
  refine ⟨?_, ?_, ?_, ?_⟩
  · intro x x' y y' hx hy
    cases hx with
    | callers =>
      cases hy with
      | callers => exact ⟨fun _ => rfl, fun _ => rfl⟩
      | reached hy => exact iff_of_false (hkeys y hy).1.symm (hkeys y hy).2.symm
    | reached hx =>
      cases hy with
      | callers => exact iff_of_false (hkeys x hx).1 (hkeys x hx).2
      | reached _ => exact Iff.rfl
  · intro x x' hx e
    cases hx with
    | callers => rw [Frame.throws_iff_mem_thrownBy, Frame.throws_iff_mem_thrownBy, hthrows]
    | reached _ => exact Iff.rfl
  · intro x x' hx z hz
    cases hx with
    | callers => exact ⟨z, follows_of_perm hcontext hperm hz, .reached (.single hz)⟩
    | reached hx => exact ⟨z, hz, .reached (hx.tail hz)⟩
  · intro x x' hx z hz
    cases hx with
    | callers =>
      have hfz := follows_of_perm hcontext.symm hperm.symm hz
      exact ⟨z, hfz, .reached (.single hfz)⟩
    | reached hx => exact ⟨z, hz, .reached (hx.tail hz)⟩

def frame? (h : Hierarchy) (cls method : String) : Option Frame := do
  let d ← h.registry.class? cls
  let m ← d.method? method
  return ⟨m, some d⟩

/-- A method that two classes inherit runs a hook on `$this`. A third class calls it on both of
them, in either order. -/
def template (hook : List Syntax.Node) (inA inB : List Syntax.Node) : Hierarchy :=
  ofRegistry (Sample.registry [
    Sample.classLike "class_declaration" "Base" [] []
      [Sample.method "run" [Sample.callOnThis "hook"], Sample.method "hook" hook],
    Sample.classLike "class_declaration" "A" ["Base"] [] inA,
    Sample.classLike "class_declaration" "B" ["Base"] [] inB,
    Sample.classLike "class_declaration" "C" [] []
      [Sample.method "f" [Sample.callOnNew "A" "run", Sample.callOnNew "B" "run"],
        Sample.method "g" [Sample.callOnNew "B" "run", Sample.callOnNew "A" "run"]]])

def inheritedHook : Hierarchy :=
  template [Sample.throwNew "Exception"] [] []

def ownHooks : Hierarchy :=
  template [] [Sample.method "hook" [Sample.throwNew "LogicException"]]
    [Sample.method "hook" [Sample.throwNew "RuntimeException"]]

theorem context_of_frame? {cls method : String} {f : Frame} (hf : h.frame? cls method = some f) :
    f.context = h.registry.class? cls := by
  simp only [frame?, Option.bind_eq_bind, Option.bind_eq_some_iff] at hf
  obtain ⟨d, hd, m, _, hm⟩ := hf
  cases hm
  exact hd.symm

theorem reached_of_any {n : Nat} {root : Frame} {e : String}
    (hany : (h.reachedWithin n root).any (fun f => (f.thrownBy h.registry).contains e) = true) :
    ∃ f, ReflTransGen h.Follows root f ∧ f.Throws h.registry e := by
  obtain ⟨f, hf, he⟩ := List.any_eq_true.1 hany
  refine ⟨f, reached_of_mem_reachedWithin hf, ?_⟩
  exact (f.throws_iff_mem_thrownBy _ e).2 (List.contains_iff_mem.1 he)

theorem inheritedHook_facts :
    ∀ f ∈ inheritedHook.frame? "C" "f", ∀ g ∈ inheritedHook.frame? "C" "g",
      ((f.edges inheritedHook.registry).map CallEdge.key).Perm
        ((g.edges inheritedHook.registry).map CallEdge.key) ∧
      f.thrownBy inheritedHook.registry = g.thrownBy inheritedHook.registry ∧
      inheritedHook.steadyWithin 2 f = true ∧
      (∀ x ∈ (inheritedHook.callees f).flatMap (inheritedHook.reachedWithin 1),
        x.key ≠ f.key ∧ x.key ≠ g.key) ∧
      (inheritedHook.reachedWithin 2 f).any
        (fun x => (x.thrownBy inheritedHook.registry).contains "Exception") = true := by
  decide +kernel

/-- Every exception of a frame that is reached over steady frames is reported, and whatever is
reported is thrown by a frame that is reached. Where all frames are steady, it does not matter in
which order calls are made. -/
theorem steady_exceptions_reported (h : Hierarchy) (root : Frame) :
    (∀ f, h.ReachesSteadily root f → ∀ e, f.Throws h.registry e → h.Reports root e) ∧
    (∀ e, h.Reports root e → ∃ f, ReflTransGen h.Follows root f ∧
      ∃ e', f.Throws h.registry e' ∧ lower e' = lower e) ∧
    ((∀ f, ReflTransGen h.Follows root f → h.Steady root f) →
      ∀ h' R root', SameCalls h h' R → R root root' →
        ∀ e, h.Reports root e ↔ h'.Reports root' e) := by
  refine ⟨?_, ?_, ?_⟩
  · intro f hf e he
    exact reports_of_reachesSteadily hf he
  · intro e he
    exact throws_of_reports he
  · intro hall h' R root' hR hroot e
    constructor
    · exact hR.reports hroot hall
    · exact hR.symm.reports hroot fun f' hf' => hR.steady hroot hall hf'

theorem steady_exceptions_reported_inherited :
    ∃ f g, inheritedHook.frame? "C" "f" = some f ∧ inheritedHook.frame? "C" "g" = some g ∧
      (∀ x, ReflTransGen inheritedHook.Follows f x → inheritedHook.Steady f x) ∧
      inheritedHook.Reports f "Exception" ∧
      ∀ e, inheritedHook.Reports f e ↔ inheritedHook.Reports g e := by
  obtain ⟨f, hf⟩ := Option.isSome_iff_exists.1
    (show (inheritedHook.frame? "C" "f").isSome by decide +kernel)
  obtain ⟨g, hg⟩ := Option.isSome_iff_exists.1
    (show (inheritedHook.frame? "C" "g").isSome by decide +kernel)
  obtain ⟨hperm, hthrows, hsteady, hkeys, hany⟩ := inheritedHook_facts f hf g hg
  have hall := steady_of_steadyWithin hsteady
  have hend : inheritedHook.endsWithin 2 f = true := (Bool.and_eq_true _ _ ▸ hsteady).1
  have hcontext : f.context = g.context := by rw [context_of_frame? hf, context_of_frame? hg]
  have hsame := sameCalls_of_perm hcontext hperm hthrows
    fun x hx => hkeys x (mem_reachedWithin_callees hend hx)
  obtain ⟨hreported, _, horder⟩ := steady_exceptions_reported inheritedHook f
  obtain ⟨x, hx, he⟩ := reached_of_any hany
  exact ⟨f, g, hf, hg, hall, hreported x (reachesSteadily_of_all_steady hall hx) _ he,
    horder hall inheritedHook _ g hsame .callers⟩

theorem ownHooks_facts :
    ∀ f ∈ ownHooks.frame? "C" "f", ∀ g ∈ ownHooks.frame? "C" "g",
      ((f.edges ownHooks.registry).map CallEdge.key).Perm
        ((g.edges ownHooks.registry).map CallEdge.key) ∧
      (ownHooks.trace f).value.keys = ["LogicException"] ∧
      (ownHooks.trace g).value.keys = ["RuntimeException"] ∧
      (ownHooks.reachedWithin 2 f).any
        (fun x => (x.thrownBy ownHooks.registry).contains "RuntimeException") = true := by
  decide +kernel

/-- Where each class has a hook of its own, only that of the class that is called first counts. -/
theorem second_receiver_missed :
    ∃ f g, ownHooks.frame? "C" "f" = some f ∧ ownHooks.frame? "C" "g" = some g ∧
      (∃ x e, ReflTransGen ownHooks.Follows f x ∧ x.Throws ownHooks.registry e ∧
        ¬ ownHooks.Reports f e) ∧
      ((f.edges ownHooks.registry).map CallEdge.key).Perm
        ((g.edges ownHooks.registry).map CallEdge.key) ∧
      ¬ ∀ e, ownHooks.Reports f e ↔ ownHooks.Reports g e := by
  obtain ⟨f, hf⟩ := Option.isSome_iff_exists.1
    (show (ownHooks.frame? "C" "f").isSome by decide +kernel)
  obtain ⟨g, hg⟩ := Option.isSome_iff_exists.1
    (show (ownHooks.frame? "C" "g").isSome by decide +kernel)
  obtain ⟨hperm, hkeys, hkeys', hany⟩ := ownHooks_facts f hf g hg
  have hmissed : ¬ ownHooks.Reports f "RuntimeException" := by
    simp only [Reports, hkeys, List.mem_singleton, exists_eq_left]
    decide
  have hreported : ownHooks.Reports g "RuntimeException" := by
    simp only [Reports, hkeys', List.mem_singleton, exists_eq_left]
  obtain ⟨x, hx, he⟩ := reached_of_any hany
  exact ⟨f, g, hf, hg, ⟨x, _, hx, he, hmissed⟩, hperm,
    fun hsame => hmissed ((hsame "RuntimeException").2 hreported)⟩

end Hierarchy

end ContractCheck
