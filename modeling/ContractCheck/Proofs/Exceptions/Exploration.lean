import ContractCheck.Proofs.Exceptions.Calls

/-!
The analysis of a method as a relation, without any bound on how deep calls go. A derivation is a
finite run, so that a result that has one is the result of an analysis that ends. The main statement
is that the analysis within the given depth always has one: no call goes deeper than that.
-/
namespace ContractCheck

open Text

namespace Hierarchy

/-- Following the calls of a frame one after the other, from one state to another. The list holds
the frames that calls arrive at, in order; a frame whose method was entered before is left at
once. -/
inductive Explores (h : Hierarchy) : Frame → List CallEdge → Tracing → List Frame → Tracing → Prop
  | done (f : Frame) (s : Tracing) : Explores h f [] s [] s
  | repeated {f : Frame} {edge : CallEdge} {edges : List CallEdge} {s t : Tracing}
      {arrivals : List Frame} (hk : edge.key ∈ s.followed) (rest : Explores h f edges s arrivals t) :
      Explores h f (edge :: edges) s arrivals t
  | unknown {f : Frame} {edge : CallEdge} {edges : List CallEdge} {s t : Tracing}
      {arrivals : List Frame} (hk : edge.key ∉ s.followed) (hc : (h.callee? f edge).value = none)
      (rest : Explores h f edges { s with followed := edge.key :: s.followed } arrivals t) :
      Explores h f (edge :: edges) s arrivals t
  | known {f g : Frame} {edge : CallEdge} {edges : List CallEdge} {s t : Tracing}
      {arrivals : List Frame} (hk : edge.key ∉ s.followed)
      (hc : (h.callee? f edge).value = some g) (hg : g.key ∈ s.entered.keys)
      (rest : Explores h f edges { s with followed := edge.key :: s.followed } arrivals t) :
      Explores h f (edge :: edges) s (g :: arrivals) t
  | entered {f g : Frame} {edge : CallEdge} {edges : List CallEdge} {s t u : Tracing}
      {body : Syntax.Node} {inner arrivals : List Frame} (hk : edge.key ∉ s.followed)
      (hc : (h.callee? f edge).value = some g) (hg : g.key ∉ s.entered.keys)
      (hb : g.method.body = some body)
      (callee : Explores h g (g.calls h.registry body)
        { found := h.thrownHere g body, entered := s.entered.insertNew g.key g } inner u)
      (rest : Explores h f edges
        ⟨s.found.addCallee f.method.qualifiedName u.found, edge.key :: s.followed, u.entered⟩
        arrivals t) :
      Explores h f (edge :: edges) s (g :: (inner ++ arrivals)) t

/-- The analysis of a frame from the start: the frames that were arrived at, what was found, and
which methods were entered. -/
inductive Analyzes (h : Hierarchy) : Frame → List Frame → Trace → Entered → Prop
  | announced {f : Frame} (hb : f.method.body = none) :
      Analyzes h f [f] {} (Table.insertNew {} f.key f)
  | defined {f : Frame} {body : Syntax.Node} {arrivals : List Frame} {t : Tracing}
      (hb : f.method.body = some body)
      (run : Explores h f (f.calls h.registry body)
        { found := h.thrownHere f body, entered := Table.insertNew {} f.key f } arrivals t) :
      Analyzes h f (f :: arrivals) t.found t.entered

/-- The calls and the first state decide the run. -/
theorem explores_unique {h : Hierarchy} {f : Frame} {edges : List CallEdge} {s t t' : Tracing}
    {arrivals arrivals' : List Frame} (run : Explores h f edges s arrivals t)
    (run' : Explores h f edges s arrivals' t') : arrivals = arrivals' ∧ t = t' := by
  induction run generalizing arrivals' t' with
  | done => cases run' with
    | done => exact ⟨rfl, rfl⟩
  | repeated hk rest ih =>
    cases run' with
    | repeated _ rest' => exact ih rest'
    | unknown hk' | known hk' | entered hk' => exact absurd hk hk'
  | unknown hk hc rest ih =>
    cases run' with
    | repeated hk' => exact absurd hk' hk
    | unknown _ _ rest' => exact ih rest'
    | known _ hc' | entered _ hc' => simp [hc] at hc'
  | known hk hc hg rest ih =>
    cases run' with
    | repeated hk' => exact absurd hk' hk
    | unknown _ hc' => simp [hc] at hc'
    | known _ hc' _ rest' =>
      obtain rfl := Option.some.inj (hc.symm.trans hc')
      obtain ⟨rfl, rfl⟩ := ih rest'
      exact ⟨rfl, rfl⟩
    | entered _ hc' hg' =>
      obtain rfl := Option.some.inj (hc.symm.trans hc')
      exact absurd hg hg'
  | entered hk hc hg hb callee rest ihCallee ih =>
    cases run' with
    | repeated hk' => exact absurd hk' hk
    | unknown _ hc' => simp [hc] at hc'
    | known _ hc' hg' =>
      obtain rfl := Option.some.inj (hc.symm.trans hc')
      exact absurd hg' hg
    | entered _ hc' _ hb' callee' rest' =>
      obtain rfl := Option.some.inj (hc.symm.trans hc')
      obtain rfl := Option.some.inj (hb.symm.trans hb')
      obtain ⟨rfl, rfl⟩ := ihCallee callee'
      obtain ⟨rfl, rfl⟩ := ih rest'
      exact ⟨rfl, rfl⟩

theorem analyzes_unique {h : Hierarchy} {f : Frame} {arrivals arrivals' : List Frame}
    {t t' : Trace} {entered entered' : Entered} (run : Analyzes h f arrivals t entered)
    (run' : Analyzes h f arrivals' t' entered') :
    arrivals = arrivals' ∧ t = t' ∧ entered = entered' := by
  cases run with
  | announced hb =>
    cases run' with
    | announced => exact ⟨rfl, rfl, rfl⟩
    | defined hb' => simp [hb] at hb'
  | defined hb run =>
    cases run' with
    | announced hb' => simp [hb] at hb'
    | defined hb' run' =>
      obtain rfl := Option.some.inj (hb.symm.trans hb')
      obtain ⟨rfl, rfl⟩ := explores_unique run run'
      exact ⟨rfl, rfl, rfl⟩

def firstFrames (entered : Entered) (arrivals : List Frame) : Entered :=
  arrivals.foldl (fun acc f => acc.insertNew f.key f) entered

theorem firstFrames_append (entered : Entered) (as bs : List Frame) :
    firstFrames entered (as ++ bs) = firstFrames (firstFrames entered as) bs :=
  List.foldl_append ..

theorem entered_of_explores {h : Hierarchy} {f : Frame} {edges : List CallEdge} {s t : Tracing}
    {arrivals : List Frame} (run : Explores h f edges s arrivals t) :
    t.entered = firstFrames s.entered arrivals := by
  induction run with
  | done => rfl
  | repeated hk rest ih => exact ih
  | unknown hk hc rest ih => exact ih
  | known hk hc hg rest ih =>
    rw [ih, firstFrames, firstFrames, List.foldl_cons, Table.insertNew_of_mem hg]
  | entered hk hc hg hb callee rest ihCallee ih =>
    rw [ih, ihCallee, ← firstFrames_append]
    rfl

theorem mem_keys_firstFrames (entered : Entered) (arrivals : List Frame) (k : String) :
    k ∈ (firstFrames entered arrivals).keys ↔ k ∈ entered.keys ∨ ∃ f ∈ arrivals, f.key = k := by
  induction arrivals generalizing entered with
  | nil => simp [firstFrames]
  | cons f arrivals ih =>
    have hstep := ih (entered.insertNew f.key f)
    rw [Table.mem_keys_insertNew] at hstep
    rw [show firstFrames entered (f :: arrivals) = firstFrames (entered.insertNew f.key f) arrivals
      from rfl, hstep]
    simp only [List.mem_cons, exists_eq_or_imp, or_assoc, @eq_comm _ k f.key]

theorem nodup_keys_firstFrames {entered : Entered} (hn : entered.keys.Nodup)
    (arrivals : List Frame) : (firstFrames entered arrivals).keys.Nodup := by
  induction arrivals generalizing entered with
  | nil => exact hn
  | cons f arrivals ih => exact ih (Table.nodup_keys_insertNew hn f.key f)

/-- What was entered stays entered. -/
theorem keys_subset_of_explores {h : Hierarchy} {f : Frame} {edges : List CallEdge} {s t : Tracing}
    {arrivals : List Frame} (run : Explores h f edges s arrivals t) :
    s.entered.keys ⊆ t.entered.keys := by
  intro k hk
  rw [entered_of_explores run, mem_keys_firstFrames]
  exact Or.inl hk

def unentered (h : Hierarchy) (entered : Entered) : Nat :=
  (h.methodKeys.filter fun k => k ∉ entered.keys).length

theorem unentered_mono (h : Hierarchy) {entered entered' : Entered}
    (hs : entered.keys ⊆ entered'.keys) : h.unentered entered' ≤ h.unentered entered := by
  apply List.Sublist.length_le
  apply List.monotone_filter_right
  intro k hk
  simp only [decide_eq_true_eq] at hk ⊢
  exact fun hin => hk (hs hin)

theorem unentered_insertNew_lt (h : Hierarchy) {entered : Entered} {f : Frame}
    (hm : f.key ∈ h.methodKeys) (hn : f.key ∉ entered.keys) :
    h.unentered (entered.insertNew f.key f) < h.unentered entered := by
  have hfilter : (h.methodKeys.filter fun k => k ∉ (entered.insertNew f.key f).keys) =
      (h.methodKeys.filter fun k => k ∉ entered.keys).filter (· ≠ f.key) := by
    rw [List.filter_filter]
    apply List.filter_congr
    intro k _
    simp [Table.mem_keys_insertNew, not_or, and_comm]
  rw [unentered, unentered, hfilter]
  apply List.length_filter_lt_length_iff_exists.2
  exact ⟨f.key, List.mem_filter.2 ⟨hm, by simpa using hn⟩, by simp⟩

theorem value_follow_repeated {h : Hierarchy} {enter : Frame → Entered → Traced (Trace × Entered)}
    {f : Frame} {s : Tracing} {edge : CallEdge} (hk : edge.key ∈ s.followed) :
    (h.follow enter f s edge).value = s := by
  simp [follow, hk]

theorem value_follow_unknown {h : Hierarchy} {enter : Frame → Entered → Traced (Trace × Entered)}
    {f : Frame} {s : Tracing} {edge : CallEdge} (hk : edge.key ∉ s.followed)
    (hc : (h.callee? f edge).value = none) :
    (h.follow enter f s edge).value = { s with followed := edge.key :: s.followed } := by
  simp [follow, hk, hc]

theorem value_follow_callee {h : Hierarchy} {enter : Frame → Entered → Traced (Trace × Entered)}
    {f g : Frame} {s : Tracing} {edge : CallEdge} (hk : edge.key ∉ s.followed)
    (hc : (h.callee? f edge).value = some g) :
    (h.follow enter f s edge).value =
      ⟨s.found.addCallee f.method.qualifiedName (enter g s.entered).value.1,
        edge.key :: s.followed, (enter g s.entered).value.2⟩ := by
  simp [follow, hk, hc]

theorem value_analyze_known {h : Hierarchy} {g : Frame} {entered : Entered}
    (hg : g.key ∈ entered.keys) (depth : Nat) :
    (h.analyze depth g entered).value = ({}, entered) := by
  cases depth with
  | zero => rfl
  | succ depth =>
    have hcontains := (entered.contains_iff_mem_keys g.key).2 hg
    simp [analyze, hcontains]

theorem value_analyze_announced {h : Hierarchy} {g : Frame} {entered : Entered}
    (hg : g.key ∉ entered.keys) (hb : g.method.body = none) (depth : Nat) :
    (h.analyze (depth + 1) g entered).value = ({}, entered.insertNew g.key g) := by
  have hcontains := mt (entered.contains_iff_mem_keys g.key).1 hg
  simp [analyze, hcontains, hb]

theorem value_analyze_defined {h : Hierarchy} {g : Frame} {entered : Entered} {body : Syntax.Node}
    (hg : g.key ∉ entered.keys) (hb : g.method.body = some body) (depth : Nat) :
    ∃ t, t = ((g.calls h.registry body).foldlM (h.follow (h.analyze depth) g)
        { found := h.thrownHere g body, entered := entered.insertNew g.key g }).value ∧
      (h.analyze (depth + 1) g entered).value = (t.found, t.entered) := by
  have hcontains := mt (entered.contains_iff_mem_keys g.key).1 hg
  refine ⟨_, rfl, ?_⟩
  simp [analyze, hcontains, hb]

def EntersWithin (h : Hierarchy) (depth : Nat) : Prop :=
  ∀ (g : Frame) (entered : Entered) (body : Syntax.Node), g.key ∈ h.methodKeys →
    g.key ∉ entered.keys → g.method.body = some body → h.unentered entered ≤ depth →
    ∃ inner u, Explores h g (g.calls h.registry body)
        { found := h.thrownHere g body, entered := entered.insertNew g.key g } inner u ∧
      (h.analyze depth g entered).value = (u.found, u.entered)

theorem explores_foldlM {h : Hierarchy} {depth : Nat} (hd : h.EntersWithin depth) (f : Frame)
    (edges : List CallEdge) (s : Tracing) (hs : h.unentered s.entered ≤ depth) :
    ∃ arrivals, Explores h f edges s arrivals
      (edges.foldlM (h.follow (h.analyze depth) f) s).value := by
  induction edges generalizing s with
  | nil => exact ⟨[], .done f s⟩
  | cons edge edges ih =>
    rw [List.foldlM_cons, Traced.value_bind]
    by_cases hk : edge.key ∈ s.followed
    · rw [value_follow_repeated hk]
      obtain ⟨arrivals, rest⟩ := ih s hs
      exact ⟨arrivals, .repeated hk rest⟩
    · cases hc : (h.callee? f edge).value with
      | none =>
        rw [value_follow_unknown hk hc]
        obtain ⟨arrivals, rest⟩ := ih { s with followed := edge.key :: s.followed } hs
        exact ⟨arrivals, .unknown hk hc rest⟩
      | some g =>
        rw [value_follow_callee hk hc]
        by_cases hg : g.key ∈ s.entered.keys
        · rw [value_analyze_known hg depth]
          obtain ⟨arrivals, rest⟩ := ih { s with followed := edge.key :: s.followed } hs
          exact ⟨g :: arrivals, .known hk hc hg rest⟩
        · obtain ⟨body, hb⟩ := body_of_callee? hc
          obtain ⟨inner, u, callee, hu⟩ := hd g s.entered body (key_mem_of_callee? hc) hg hb hs
          rw [hu]
          have hmono : h.unentered u.entered ≤ depth := by
            refine Nat.le_trans (h.unentered_mono ?_) hs
            intro k hin
            exact keys_subset_of_explores callee
              ((Table.mem_keys_insertNew s.entered g.key k g).2 (Or.inl hin))
          obtain ⟨arrivals, rest⟩ := ih
            ⟨s.found.addCallee f.method.qualifiedName u.found, edge.key :: s.followed, u.entered⟩ hmono
          exact ⟨g :: (inner ++ arrivals), .entered hk hc hg hb callee rest⟩

theorem entersWithin (h : Hierarchy) (depth : Nat) : h.EntersWithin depth := by
  induction depth with
  | zero =>
    intro g entered body hm hg hb hd
    have hlt := h.unentered_insertNew_lt hm hg
    omega
  | succ depth ih =>
    intro g entered body hm hg hb hd
    have hlt := h.unentered_insertNew_lt hm hg
    obtain ⟨t, ht, hvalue⟩ := value_analyze_defined (h := h) hg hb depth
    obtain ⟨inner, run⟩ := explores_foldlM ih g (g.calls h.registry body)
      { found := h.thrownHere g body, entered := entered.insertNew g.key g }
      (show h.unentered (entered.insertNew g.key g) ≤ depth by omega)
    exact ⟨inner, t, ht ▸ run, hvalue⟩

/-- The analysis from the start, within a depth that no call exceeds, is a run. -/
theorem analyzes_of_depth (h : Hierarchy) (f : Frame) {depth : Nat}
    (hd : h.methodKeys.length < depth) :
    ∃ arrivals, Analyzes h f arrivals (h.analyze depth f {}).value.1
      (h.analyze depth f {}).value.2 := by
  obtain ⟨depth, rfl⟩ : ∃ n, depth = n + 1 := ⟨depth - 1, by omega⟩
  have hf : f.key ∉ Table.keys ({} : Entered) := by simp [Table.keys]
  cases hb : f.method.body with
  | none =>
    rw [value_analyze_announced hf hb]
    exact ⟨[f], .announced hb⟩
  | some body =>
    obtain ⟨t, ht, hvalue⟩ := value_analyze_defined (h := h) hf hb depth
    have hs : h.unentered (Table.insertNew {} f.key f) ≤ depth :=
      Nat.le_trans (List.length_filter_le ..) (by omega)
    obtain ⟨arrivals, run⟩ := explores_foldlM (h.entersWithin depth) f (f.calls h.registry body)
      { found := h.thrownHere f body, entered := Table.insertNew {} f.key f } hs
    rw [hvalue]
    exact ⟨f :: arrivals, .defined hb (ht ▸ run)⟩

theorem length_methodKeys_lt_maxDepth (h : Hierarchy) : h.methodKeys.length < h.maxDepth := by
  simp [methodKeys, maxDepth, Registry.declaredMethods]

/-- A greater depth gives nothing else. -/
theorem analyze_eq_of_maxDepth_le (h : Hierarchy) (f : Frame) {depth : Nat}
    (hd : h.maxDepth ≤ depth) :
    (h.analyze depth f {}).value = (h.analyze h.maxDepth f {}).value := by
  have hlt := h.length_methodKeys_lt_maxDepth
  obtain ⟨_, run⟩ := h.analyzes_of_depth f (Nat.lt_of_lt_of_le hlt hd)
  obtain ⟨_, run'⟩ := h.analyzes_of_depth f hlt
  obtain ⟨-, htrace, hentered⟩ := analyzes_unique run run'
  exact Prod.ext htrace hentered

end Hierarchy

end ContractCheck
