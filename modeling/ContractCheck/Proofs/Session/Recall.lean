import ContractCheck.Proofs.Session.Agreement

/-!
What a session answers from its memory. Questions leave every memory with the same view of the
hierarchy, and a trace changes the answers on its own key only. So sessions that answer alike go on
to do so, whatever is asked of both.
-/
namespace ContractCheck

open Text

def Frame.on (r : Registry) (f : Frame) : Frame :=
  ⟨f.method, f.context.orElse fun _ => r.class? f.method.owner⟩

theorem Registry.Alike.on_eq {r r' : Registry} (h : r.Alike r') (f : Frame) : f.on r = f.on r' := by
  simp only [Frame.on, h.class?_eq]

namespace Session

def traceOf (s : Session) (m : Memory) (analyst : Nat) (f : Frame) : Trace :=
  (s.knownTrace? analyst (f.on s.registry).memoKey).getD
    ((s.hierarchy m).trace (f.on s.registry)).value

/-- A session after questions to another one: it differs only in what it noted and remembers, its
memories see the same hierarchy, and what they held of it they hold. -/
structure Preserved (s s' : Session) : Prop where
  disk : s'.disk = s.disk
  registry : s'.registry = s.registry
  substitution : s'.substitution = s.substitution
  segregation : s'.segregation = s.segregation
  threshold : s'.threshold = s.threshold
  reported : s'.reported = s.reported
  hierarchy : ∀ m, s'.hierarchy m = s.hierarchy m
  memo : ∀ m key names, (s.memo m).find? key = some names → (s'.memo m).find? key = some names

theorem Preserved.refl (s : Session) : s.Preserved s :=
  ⟨rfl, rfl, rfl, rfl, rfl, rfl, fun _ => rfl, fun _ _ _ h => h⟩

theorem Preserved.trans {s t u : Session} (hst : s.Preserved t) (htu : t.Preserved u) :
    s.Preserved u :=
  ⟨htu.disk.trans hst.disk, htu.registry.trans hst.registry,
    htu.substitution.trans hst.substitution, htu.segregation.trans hst.segregation,
    htu.threshold.trans hst.threshold, htu.reported.trans hst.reported,
    fun m => (htu.hierarchy m).trans (hst.hierarchy m),
    fun m key names h => htu.memo m key names (hst.memo m key names h)⟩

/-- It is enough that registry, rules and memories of ancestors are left alone. -/
theorem preserved_of_memo {s s' : Session} (hdisk : s'.disk = s.disk)
    (hregistry : s'.registry = s.registry) (hsubstitution : s'.substitution = s.substitution)
    (hsegregation : s'.segregation = s.segregation) (hthreshold : s'.threshold = s.threshold)
    (hreported : s'.reported = s.reported) (hmemo : ∀ m, s'.memo m = s.memo m) :
    s.Preserved s' := by
  refine ⟨hdisk, hregistry, hsubstitution, hsegregation, hthreshold, hreported, ?_, ?_⟩
  · intro m
    rw [hierarchy, hierarchy, hregistry, hmemo]
  · intro m key names h
    rw [hmemo]
    exact h

theorem preserved_note (s : Session) (n : Notice) : s.Preserved (s.note n) := by
  refine preserved_of_memo rfl rfl rfl rfl rfl rfl ?_
  intro m
  cases m <;> rfl

/-- Ancestors that are remembered are those that would have been worked out. -/
theorem getD_insertNew_ancestors (r : Registry) {memo : AncestorMemo} {name : String}
    (hnew : nameKey name ∉ memo.keys) (n : String) :
    ((memo.insertNew (nameKey name) (r.ancestors name)).find? (nameKey n)).getD (r.ancestors n) =
      (memo.find? (nameKey n)).getD (r.ancestors n) := by
  by_cases hkey : nameKey name = nameKey n
  · rw [← hkey, Table.find?_insertNew_self hnew, (Table.find?_eq_none_iff _ _).2 hnew]
    exact r.ancestors_congr hkey
  · rw [Table.find?_insertNew_of_ne hkey]

theorem preserved_remember (s : Session) (m : Memory) (name : String) :
    s.Preserved (s.remember m name) := by
  rw [remember]
  split
  · exact Preserved.refl s
  · rename_i hnew
    have hkeys : nameKey name ∉ (s.memo m).keys := mt ((s.memo m).contains_iff_mem_keys _).2 hnew
    cases m with
    | session =>
      refine ⟨rfl, rfl, rfl, rfl, rfl, rfl, ?_, ?_⟩
      · intro m'
        cases m' with
        | session =>
          exact congrArg (Hierarchy.mk s.registry) (funext (getD_insertNew_ancestors _ hkeys))
        | picked => rfl
      · intro m' key names h
        cases m' with
        | session => exact Table.find?_insertNew_of_some h _ _
        | picked => exact h
    | picked =>
      refine ⟨rfl, rfl, rfl, rfl, rfl, rfl, ?_, ?_⟩
      · intro m'
        cases m' with
        | session => rfl
        | picked =>
          exact congrArg (Hierarchy.mk s.registry) (funext (getD_insertNew_ancestors _ hkeys))
      · intro m' key names h
        cases m' with
        | session => exact h
        | picked => exact Table.find?_insertNew_of_some h _ _

theorem preserved_absorb (m : Memory) (events : List Event) (s : Session) :
    s.Preserved (events.foldl (absorb m) s) := by
  induction events generalizing s with
  | nil => exact Preserved.refl s
  | cons e events ih =>
    cases e with
    | notice n => exact (preserved_note s n).trans (ih _)
    | ancestorsAsked name => exact (preserved_remember s m name).trans (ih _)

theorem preserved_keepTrace (s : Session) (analyst : Nat) (key : String × String) (t : Trace) :
    s.Preserved (s.keepTrace analyst key t) := by
  refine preserved_of_memo rfl rfl rfl rfl rfl rfl ?_
  intro m
  cases m <;> rfl

/-- Where the traces are untouched, so are the answers. -/
theorem Preserved.traceOf_eq {s s' : Session} (h : s.Preserved s')
    (htraces : s'.traces = s.traces) : s'.traceOf = s.traceOf := by
  funext m analyst f
  rw [traceOf, traceOf, knownTrace?, knownTrace?, h.registry, h.hierarchy, htraces]

end Session

namespace Work

open Session

theorem preserved_ask {α : Type} (m : Memory) (question : Hierarchy → Traced α) (s : Session) :
    s.Preserved ((ask m question).run s).2 :=
  preserved_absorb m _ s

theorem traceOf_ask {α : Type} (m : Memory) (question : Hierarchy → Traced α) (s : Session) :
    ((ask m question).run s).2.traceOf = s.traceOf :=
  (preserved_ask m question s).traceOf_eq (traces_absorb m _ s)

section

variable (m : Memory) (analyst : Nat) (f : Frame) (s : Session)

theorem run_trace_on :
    (trace m analyst f.method f.context).run s =
      match s.knownTrace? analyst (f.on s.registry).memoKey with
      | some t => (t, s)
      | none =>
        let answer := (ask m (·.trace (f.on s.registry))).run s
        (answer.1, answer.2.keepTrace analyst (f.on s.registry).memoKey answer.1) := by
  rw [trace, StateT.run_bind, StateT.run_get, pure_bind]
  cases hk : s.knownTrace? analyst (f.on s.registry).memoKey with
  | some t =>
    have hknown : ((s.traces.find? analyst).getD {}).find? (lower f.method.qualifiedName,
        ((f.context.orElse fun _ => s.registry.class? f.method.owner).map (lower ·.name)).getD "") =
        some t := hk
    simp only [hknown]
    rfl
  | none =>
    have hknown : ((s.traces.find? analyst).getD {}).find? (lower f.method.qualifiedName,
        ((f.context.orElse fun _ => s.registry.class? f.method.owner).map (lower ·.name)).getD "") =
        none := hk
    simp only [hknown]
    rfl

theorem value_trace : ((trace m analyst f.method f.context).run s).1 = s.traceOf m analyst f := by
  rw [run_trace_on, traceOf]
  cases s.knownTrace? analyst (f.on s.registry).memoKey with
  | some t => rfl
  | none => rfl

theorem preserved_trace : s.Preserved ((trace m analyst f.method f.context).run s).2 := by
  rw [run_trace_on]
  cases s.knownTrace? analyst (f.on s.registry).memoKey with
  | some t => exact Preserved.refl s
  | none => exact (preserved_ask m _ s).trans (preserved_keepTrace _ _ _ _)

/-- The trace is then remembered under the key of its frame, by its analyst only. -/
theorem knownTrace?_trace (analyst' : Nat) (key : String × String) :
    ((trace m analyst f.method f.context).run s).2.knownTrace? analyst' key =
      if analyst' = analyst ∧ key = (f.on s.registry).memoKey then some (s.traceOf m analyst f)
      else s.knownTrace? analyst' key := by
  rw [run_trace_on, traceOf]
  cases hk : s.knownTrace? analyst (f.on s.registry).memoKey with
  | some t =>
    by_cases h : analyst' = analyst ∧ key = (f.on s.registry).memoKey
    · rw [if_pos h, h.1, h.2, hk]
      rfl
    · rw [if_neg h]
  | none =>
    have htraces : ((ask m (·.trace (f.on s.registry))).run s).2.traces = s.traces :=
      traces_absorb m _ s
    have hkeys : (f.on s.registry).memoKey ∉ ((s.traces.find? analyst).getD {}).keys :=
      (Table.find?_eq_none_iff _ _).1 hk
    by_cases ha : analyst' = analyst
    · subst ha
      simp only [knownTrace?_keepTrace, htraces, true_and]
      by_cases hkey : key = (f.on s.registry).memoKey
      · rw [if_pos hkey, hkey, Table.find?_insertNew_self hkeys]
        rfl
      · rw [if_neg hkey, Table.find?_insertNew_of_ne (Ne.symm hkey)]
        rfl
    · rw [if_neg fun h => ha h.1]
      simp only [knownTrace?_keepTrace_of_ne _ (Ne.symm ha)]
      rw [knownTrace?, htraces, knownTrace?]

/-- From then on the analyst answers so on all frames of the key; no other answer changes. -/
theorem traceOf_trace (m' : Memory) (analyst' : Nat) (g : Frame) :
    ((trace m analyst f.method f.context).run s).2.traceOf m' analyst' g =
      if analyst' = analyst ∧ (g.on s.registry).memoKey = (f.on s.registry).memoKey then
        s.traceOf m analyst f
      else s.traceOf m' analyst' g := by
  have hafter := preserved_trace m analyst f s
  rw [traceOf, hafter.registry, hafter.hierarchy, knownTrace?_trace]
  by_cases h : analyst' = analyst ∧ (g.on s.registry).memoKey = (f.on s.registry).memoKey
  · rw [if_pos h, if_pos h, Option.getD_some]
  · rw [if_neg h, if_neg h, traceOf]

end

/-- Sessions over registries that are alike, with the same rules, which answer alike: the memories
in use see the same hierarchy, and their analysts have the same traces. -/
structure Mirrors (r r' : Registry) (rules : RuleList SubstitutionRule) (U : Memory → Nat → Prop)
    (s s' : Session) : Prop where
  registry : s.registry = r ∧ s'.registry = r'
  substitution : s.substitution = rules ∧ s'.substitution = rules
  hierarchy : ∀ m analyst, U m analyst → (s.hierarchy m).Alike (s'.hierarchy m)
  traces : ∀ m analyst, U m analyst → ∀ f : Frame, f.Askable r →
    s.traceOf m analyst f = s'.traceOf m analyst f

section

variable {r r' : Registry} {rules : RuleList SubstitutionRule} {U : Memory → Nat → Prop}

theorem Mirrors.step {s s' t t' : Session} (h : Mirrors r r' rules U s s') (ht : s.Preserved t)
    (ht' : s'.Preserved t')
    (htraces : ∀ m analyst, U m analyst → ∀ f : Frame, f.Askable r →
      t.traceOf m analyst f = t'.traceOf m analyst f) : Mirrors r r' rules U t t' := by
  refine ⟨?_, ?_, ?_, htraces⟩
  · rw [ht.registry, ht'.registry]
    exact h.registry
  · rw [ht.substitution, ht'.substitution]
    exact h.substitution
  · intro m analyst hm
    rw [ht.hierarchy, ht'.hierarchy]
    exact h.hierarchy m analyst hm

/-- Whatever is asked of both, sessions that answer alike go on to do so. -/
theorem kept_mirrors (hr : r.WellKeyed) (hr' : r.Alike r') (hsession : U .session 0)
    (hpicked : ∀ place, U rules.memory (rules.memory.analyst place)) :
    Kept r r' rules U (Mirrors r r' rules U) where
  wellKeyed := hr
  alike := hr'
  session := hsession
  picked := hpicked
  registry _ _ h := h.registry
  substitution _ _ h := h.substitution
  report n := by
    intro s s' h
    refine ⟨rfl, trivial, h.step (preserved_note s n) (preserved_note s' n) ?_⟩
    intro m analyst hm f hf
    have hs := congrFun (congrFun (congrFun ((preserved_note s n).traceOf_eq rfl) m) analyst) f
    have hs' := congrFun (congrFun (congrFun ((preserved_note s' n).traceOf_eq rfl) m) analyst) f
    exact hs.trans ((h.traces m analyst hm f hf).trans hs'.symm)
  ask := by
    intro α m analyst hm question hq s s' h
    have heq : question (s.hierarchy m) = question (s'.hierarchy m) :=
      hq _ _ (h.hierarchy m analyst hm)
    refine ⟨congrArg Traced.value heq, ⟨s.hierarchy m, h.registry.1, rfl⟩,
      h.step (preserved_ask m question s) (preserved_ask m question s') ?_⟩
    rw [traceOf_ask, traceOf_ask]
    exact h.traces
  trace := by
    intro m analyst hm f hf s s' h
    have hvalue := h.traces m analyst hm f hf
    refine ⟨?_, trivial, h.step (preserved_trace m analyst f s) (preserved_trace m analyst f s') ?_⟩
    · rw [value_trace, value_trace, hvalue]
    · -- both sides keep the same trace, and under the same key, as class-likes are found alike
      intro m' analyst' hm' g hg
      rw [traceOf_trace, traceOf_trace, hvalue, h.traces m' analyst' hm' g hg, h.registry.1,
        h.registry.2, hr'.on_eq, hr'.on_eq]

end

end Work

end ContractCheck
