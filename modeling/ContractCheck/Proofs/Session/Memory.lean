import ContractCheck.Session.Basic
import ContractCheck.Proofs.Exceptions.Names

/-!
What a session remembers. As long as nothing is indexed after the first question, its memory holds
what would be worked out anew: such a session is current, questions keep it so, and their answers
depend on the registered declarations only. Traces that are remembered stay.
-/
namespace ContractCheck

open Text TracedOrCycle

def Frame.memoKey (f : Frame) : String × String :=
  (f.key, (f.context.map (lower ·.name)).getD "")

namespace Session

def knownTrace? (s : Session) (analyst : Nat) (key : String × String) : Option Trace :=
  ((s.traces.find? analyst).getD {}).find? key

structure Current (s : Session) : Prop where
  indexed : s.registry.Indexed
  ancestors : ∀ m key names, (s.memo m).find? key = some names →
    ∀ name, nameKey name = key → names = s.registry.ancestors name
  traces : ∀ analyst key t, s.knownTrace? analyst key = some t →
    ∃ f : Frame, f.Declared s.registry ∧ f.memoKey = key ∧
      t = ((Hierarchy.ofRegistry s.registry).trace f).value

/-- Before the first question nothing is remembered. -/
theorem current_of_indexed {s : Session} (hr : s.registry.Indexed) (hsession : s.ancestors = {})
    (hpicked : s.pickedAncestors = {}) (htraces : s.traces = {}) : s.Current := by
  refine ⟨hr, ?_, ?_⟩
  · intro m key names h
    cases m with
    | session =>
      rw [memo, hsession] at h
      cases h
    | picked =>
      rw [memo, hpicked] at h
      cases h
  · intro analyst key t h
    rw [knownTrace?, htraces] at h
    cases h

theorem Current.hierarchy_eq {s : Session} (hs : s.Current) (m : Memory) :
    s.hierarchy m = Hierarchy.ofRegistry s.registry := by
  have hnames : ∀ name, ((s.memo m).find? (nameKey name)).getD (s.registry.ancestors name) =
      s.registry.ancestors name := by
    intro name
    cases hf : (s.memo m).find? (nameKey name) with
    | none => rfl
    | some names => exact hs.ancestors m _ names hf name rfl
  simp only [hierarchy, Hierarchy.ofRegistry, Hierarchy.mk.injEq, true_and]
  funext name
  exact hnames name

structure Later (s s' : Session) : Prop where
  current : s'.Current
  registry : s'.registry = s.registry
  substitution : s'.substitution = s.substitution
  traces : ∀ analyst key t, s.knownTrace? analyst key = some t → s'.knownTrace? analyst key = some t

theorem Later.refl {s : Session} (hs : s.Current) : s.Later s :=
  ⟨hs, rfl, rfl, fun _ _ _ h => h⟩

theorem Later.trans {s t u : Session} (hst : s.Later t) (htu : t.Later u) : s.Later u := by
  refine ⟨htu.current, htu.registry.trans hst.registry, htu.substitution.trans hst.substitution, ?_⟩
  intro analyst key trace h
  exact htu.traces analyst key trace (hst.traces analyst key trace h)

theorem later_note {s : Session} (hs : s.Current) (n : Notice) : s.Later (s.note n) := by
  refine ⟨⟨hs.indexed, ?_, hs.traces⟩, rfl, rfl, fun _ _ _ h => h⟩
  intro m
  cases m with
  | session => exact hs.ancestors .session
  | picked => exact hs.ancestors .picked

/-- What is remembered of a name agrees with what is registered. -/
theorem agrees_insertNew {r : Registry} {memo : AncestorMemo} {name : String}
    (hmemo : ∀ key names, memo.find? key = some names →
      ∀ n, nameKey n = key → names = r.ancestors n)
    (hnew : nameKey name ∉ memo.keys) (key : String) (names : List String)
    (hf : (memo.insertNew (nameKey name) (r.ancestors name)).find? key = some names) (n : String)
    (hn : nameKey n = key) : names = r.ancestors n := by
  by_cases hkey : nameKey name = key
  · rw [← hkey, Table.find?_insertNew_self hnew, Option.some.injEq] at hf
    rw [← hf]
    exact r.ancestors_congr (hkey.trans hn.symm)
  · rw [Table.find?_insertNew_of_ne hkey] at hf
    exact hmemo key names hf n hn

theorem later_remember {s : Session} (hs : s.Current) (m : Memory) (name : String) :
    s.Later (s.remember m name) := by
  rw [remember]
  split
  · exact Later.refl hs
  · rename_i hnew
    have hkeys : nameKey name ∉ (s.memo m).keys := mt ((s.memo m).contains_iff_mem_keys _).2 hnew
    cases m with
    | session =>
      refine ⟨⟨hs.indexed, ?_, hs.traces⟩, rfl, rfl, fun _ _ _ h => h⟩
      intro m'
      cases m' with
      | session => exact agrees_insertNew (hs.ancestors .session) hkeys
      | picked => exact hs.ancestors .picked
    | picked =>
      refine ⟨⟨hs.indexed, ?_, hs.traces⟩, rfl, rfl, fun _ _ _ h => h⟩
      intro m'
      cases m' with
      | session => exact hs.ancestors .session
      | picked => exact agrees_insertNew (hs.ancestors .picked) hkeys

theorem later_absorb {s : Session} (hs : s.Current) (m : Memory) (events : List Event) :
    s.Later (events.foldl (absorb m) s) := by
  induction events generalizing s with
  | nil => exact Later.refl hs
  | cons e events ih =>
    have hstep : s.Later (absorb m s e) := by
      cases e with
      | notice n => exact later_note hs n
      | ancestorsAsked name => exact later_remember hs m name
    exact hstep.trans (ih hstep.current)

/-- Questions about the hierarchy leave the traces alone. -/
theorem traces_absorb (m : Memory) (events : List Event) (s : Session) :
    (events.foldl (absorb m) s).traces = s.traces := by
  induction events generalizing s with
  | nil => rfl
  | cons e events ih =>
    rw [List.foldl_cons, ih]
    cases e with
    | notice n => rfl
    | ancestorsAsked name =>
      rw [absorb, remember]
      split
      · rfl
      · cases m <;> rfl

def keepTrace (s : Session) (analyst : Nat) (key : String × String) (t : Trace) : Session :=
  { s with traces := s.traces.set analyst (((s.traces.find? analyst).getD {}).insertNew key t) }

theorem knownTrace?_keepTrace_of_ne (s : Session) {analyst analyst' : Nat} (h : analyst ≠ analyst')
    (key key' : String × String) (t : Trace) :
    (s.keepTrace analyst key t).knownTrace? analyst' key' = s.knownTrace? analyst' key' := by
  simp only [knownTrace?, keepTrace, Table.find?_set_of_ne h]

theorem knownTrace?_keepTrace (s : Session) (analyst : Nat) (key key' : String × String) (t : Trace) :
    (s.keepTrace analyst key t).knownTrace? analyst key' =
      (((s.traces.find? analyst).getD {}).insertNew key t).find? key' := by
  simp only [knownTrace?, keepTrace, Table.find?_set_self, Option.getD_some]

theorem later_keepTrace {s : Session} (hs : s.Current) (analyst : Nat) {f : Frame}
    (hf : f.Declared s.registry) (hnew : s.knownTrace? analyst f.memoKey = none) {t : Trace}
    (ht : t = ((Hierarchy.ofRegistry s.registry).trace f).value) :
    s.Later (s.keepTrace analyst f.memoKey t) ∧
      (s.keepTrace analyst f.memoKey t).knownTrace? analyst f.memoKey = some t := by
  have hkeys : f.memoKey ∉ ((s.traces.find? analyst).getD {}).keys :=
    (Table.find?_eq_none_iff _ _).1 hnew
  refine ⟨⟨⟨hs.indexed, ?_, ?_⟩, rfl, rfl, ?_⟩, ?_⟩
  · intro m
    cases m with
    | session => exact hs.ancestors .session
    | picked => exact hs.ancestors .picked
  · intro analyst' key t' hk
    by_cases ha : analyst = analyst'
    · subst ha
      rw [knownTrace?_keepTrace] at hk
      by_cases hkey : f.memoKey = key
      · rw [← hkey, Table.find?_insertNew_self hkeys, Option.some.injEq] at hk
        exact ⟨f, hf, hkey, hk ▸ ht⟩
      · rw [Table.find?_insertNew_of_ne hkey] at hk
        exact hs.traces analyst key t' hk
    · rw [knownTrace?_keepTrace_of_ne s ha] at hk
      exact hs.traces analyst' key t' hk
  · intro analyst' key t' hk
    by_cases ha : analyst = analyst'
    · subst ha
      rw [knownTrace?_keepTrace]
      exact Table.find?_insertNew_of_some hk f.memoKey t
    · rwa [knownTrace?_keepTrace_of_ne s ha]
  · rw [knownTrace?_keepTrace, Table.find?_insertNew_self hkeys]

end Session

namespace Work

open Session

def Yields {α : Type} (x : Attempt α) (s : Session) (a : α) (s' : Session) : Prop :=
  x.run.run s = (.ok a, s')

theorem yields_pure {α : Type} {a b : α} {s s' : Session} (h : Yields (pure a) s b s') :
    a = b ∧ s = s' := by
  cases h
  exact ⟨rfl, rfl⟩

theorem yields_bind {α β : Type} {x : Attempt α} {f : α → Attempt β} {s s'' : Session} {b : β}
    (h : Yields (x >>= f) s b s'') : ∃ a s', Yields x s a s' ∧ Yields (f a) s' b s'' := by
  rw [Yields, ExceptT.run_bind, StateT.run_bind] at h
  cases hx : x.run.run s with
  | mk result s' =>
    rw [hx] at h
    cases result with
    | error e => cases h
    | ok a => exact ⟨a, s', hx, h⟩

theorem yields_lift {α : Type} {x : Work α} {s s' : Session} {a : α}
    (h : Yields (liftM x) s a s') : x.run s = (a, s') := by
  rw [Yields] at h
  cases hx : x.run s with
  | mk b t =>
    have hrun : (liftM x : Attempt α).run.run s = (.ok b, t) := by
      show ((fun r => (Except.ok r.1, r.2)) (x.run s) : Except CheckFault α × Session) = _
      rw [hx]
    rw [hrun] at h
    cases h
    rfl

theorem yields_get {a s s' : Session} (h : Yields get s a s') : s = a ∧ s = s' := by
  cases h
  exact ⟨rfl, rfl⟩

theorem value_ask {α : Type} {s : Session} (hs : s.Current) (m : Memory)
    (question : Hierarchy → Traced α) :
    ((ask m question).run s).1 = (question (Hierarchy.ofRegistry s.registry)).value := by
  show (question (s.hierarchy m)).value = _
  rw [hs.hierarchy_eq m]

theorem later_ask {α : Type} {s : Session} (hs : s.Current) (m : Memory)
    (question : Hierarchy → Traced α) : s.Later ((ask m question).run s).2 :=
  later_absorb hs m _

theorem run_ask {α : Type} {s s' : Session} (hs : s.Current) {m : Memory}
    {question : Hierarchy → Traced α} {a : α} (h : (ask m question).run s = (a, s')) :
    s.Later s' ∧ a = (question (Hierarchy.ofRegistry s.registry)).value := by
  have hlater := later_ask hs m question
  have hvalue := value_ask hs m question
  rw [h] at hlater hvalue
  exact ⟨hlater, hvalue⟩

theorem yields_attempt {α : Type} {s s' : Session} (hs : s.Current) {m : Memory}
    {question : Hierarchy → TracedOrCycle α} {a : α} (h : Yields (attempt m question) s a s') :
    Gives (question (Hierarchy.ofRegistry s.registry)) a ∧ s.Later s' := by
  have hlater := later_ask hs m fun h => (question h).run
  have hvalue := value_ask hs m fun h => (question h).run
  rw [Yields, attempt, ExceptT.run_mk, StateT.run_bind] at h
  cases hx : (ask m fun h => (question h).run).run s with
  | mk result t =>
    rw [hx] at hlater hvalue
    have hrun : (ask m question).run s = (result, t) := hx
    rw [hrun] at h
    cases result with
    | error e =>
      cases e
      cases h
    | ok b =>
      cases h
      exact ⟨hvalue.symm, hlater⟩

theorem run_trace (m : Memory) (analyst : Nat) (method : Method) (cls : ClassDecl) (s : Session) :
    (trace m analyst method (some cls)).run s =
      match s.knownTrace? analyst (⟨method, some cls⟩ : Frame).memoKey with
      | some t => (t, s)
      | none =>
        let answer := (ask m (·.trace ⟨method, some cls⟩)).run s
        (answer.1, answer.2.keepTrace analyst (⟨method, some cls⟩ : Frame).memoKey answer.1) := by
  have hknown : ((s.traces.find? analyst).getD {}).find? (lower method.qualifiedName, lower cls.name) =
      s.knownTrace? analyst (⟨method, some cls⟩ : Frame).memoKey := rfl
  cases hk : s.knownTrace? analyst (⟨method, some cls⟩ : Frame).memoKey with
  | some t =>
    rw [hk] at hknown
    simp only [trace, Option.orElse_eq_or, Option.some_or, Option.map_some, Option.getD_some,
      StateT.run_bind, StateT.run_get, pure_bind, hknown]
    rfl
  | none =>
    rw [hk] at hknown
    simp only [trace, Option.orElse_eq_or, Option.some_or, Option.map_some, Option.getD_some,
      StateT.run_bind, StateT.run_get, pure_bind, hknown]
    rfl

theorem trace_spec {s : Session} (hs : s.Current) (m : Memory) (analyst : Nat) {method : Method}
    {cls : ClassDecl} (hf : (⟨method, some cls⟩ : Frame).Declared s.registry) :
    s.Later ((trace m analyst method (some cls)).run s).2 ∧
      ((trace m analyst method (some cls)).run s).2.knownTrace? analyst
        (⟨method, some cls⟩ : Frame).memoKey =
          some ((trace m analyst method (some cls)).run s).1 := by
  rw [run_trace]
  cases hk : s.knownTrace? analyst (⟨method, some cls⟩ : Frame).memoKey with
  | some t => exact ⟨Later.refl hs, hk⟩
  | none =>
    have hlater := later_ask hs m (·.trace ⟨method, some cls⟩)
    have hvalue := value_ask hs m (·.trace ⟨method, some cls⟩)
    have htraces : ((ask m (·.trace ⟨method, some cls⟩)).run s).2.traces = s.traces :=
      traces_absorb m _ s
    have hnone : ((ask m (·.trace ⟨method, some cls⟩)).run s).2.knownTrace? analyst
        (⟨method, some cls⟩ : Frame).memoKey = none := by
      rw [knownTrace?, htraces]
      exact hk
    have hkeep := later_keepTrace hlater.current analyst (hlater.registry ▸ hf) hnone
      (t := ((ask m (·.trace ⟨method, some cls⟩)).run s).1)
      (by rw [hlater.registry]; exact hvalue)
    exact ⟨hlater.trans hkeep.1, hkeep.2⟩

/-- What each step of a traversal gives, and what later questions do not change, holds of the parts
of the result in the end. -/
theorem yields_gather {α β : Type} {f : α → Attempt (List β)} {R : α → List β → Session → Prop}
    {s₀ : Session} {l : List α}
    (hmono : ∀ a found s s', R a found s → s.Later s' → R a found s')
    (hstep : ∀ a ∈ l, ∀ s found s', s₀.Later s → Yields (f a) s found s' →
      s.Later s' ∧ R a found s')
    {s s' : Session} {result : List β} (hs : s₀.Later s) (h : Yields (gather f l) s result s') :
    s.Later s' ∧ ∃ parts, result = parts.flatten ∧ List.Forall₂ (fun a part => R a part s') l parts := by
  induction l generalizing s result with
  | nil =>
    obtain ⟨rfl, rfl⟩ := yields_pure h
    exact ⟨Later.refl hs.current, [], rfl, .nil⟩
  | cons a l ih =>
    obtain ⟨found, t, hfound, h⟩ := yields_bind h
    obtain ⟨more, u, hmore, h⟩ := yields_bind h
    obtain ⟨rfl, rfl⟩ := yields_pure h
    obtain ⟨hst, hR⟩ := hstep a List.mem_cons_self s found t hs hfound
    obtain ⟨htu, parts, rfl, hparts⟩ :=
      ih (fun b hb => hstep b (List.mem_cons_of_mem a hb)) (hs.trans hst) hmore
    exact ⟨hst.trans htu, found :: parts, rfl, .cons (hmono a found t u hR htu) hparts⟩

end Work

end ContractCheck
