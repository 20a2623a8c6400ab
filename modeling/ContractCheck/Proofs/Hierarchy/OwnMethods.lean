import ContractCheck.Proofs.Hierarchy.Methods
import ContractCheck.Proofs.Registry.Indexed

/-!
The method tables of class-likes. Each method stands under its lower-cased name, no name is there
twice, and every method was declared somewhere.
-/
namespace ContractCheck

open Text

namespace TracedOrCycle

def Gives {α : Type} (x : TracedOrCycle α) (a : α) : Prop :=
  (ExceptT.run x).value = .ok a

theorem gives_iff_toOption {α : Type} (x : TracedOrCycle α) (a : α) :
    Gives x a ↔ (ExceptT.run x).value.toOption = some a := by
  rw [Gives]
  cases (ExceptT.run x).value with
  | error e => simp [Except.toOption]
  | ok b => simp [Except.toOption]

theorem gives_pure_iff {α : Type} (a b : α) : Gives (pure a) b ↔ a = b := by
  simp [Gives]

theorem gives_bind_iff {α β : Type} (x : TracedOrCycle α) (f : α → TracedOrCycle β) (b : β) :
    Gives (x >>= f) b ↔ ∃ a, Gives x a ∧ Gives (f a) b := by
  simp only [Gives, ExceptT.run_bind, Traced.value_bind]
  cases (ExceptT.run x).value with
  | error e => simp
  | ok a => simp

/-- What each step of a fold keeps, the fold keeps. -/
theorem foldlM_keeps {α β : Type} {f : β → α → TracedOrCycle β} {P : β → Prop} {l : List α}
    (hstep : ∀ b, ∀ a ∈ l, ∀ b', P b → Gives (f b a) b' → P b') {b b' : β} (hb : P b)
    (h : Gives (l.foldlM f b) b') : P b' := by
  induction l generalizing b with
  | nil =>
    rw [List.foldlM_nil, gives_pure_iff] at h
    exact h ▸ hb
  | cons a l ih =>
    rw [List.foldlM_cons, gives_bind_iff] at h
    obtain ⟨c, hc, h⟩ := h
    exact ih (fun b a ha => hstep b a (List.mem_cons_of_mem _ ha))
      (hstep b a List.mem_cons_self c hb hc) h

end TracedOrCycle

open TracedOrCycle

structure MethodTable.WellNamed (P : Method → Prop) (t : MethodTable) : Prop where
  distinct : t.keys.Nodup
  named : ∀ e ∈ t.entries, e.1 = lower e.2.name ∧ P e.2

namespace MethodTable

theorem WellNamed.mono {P Q : Method → Prop} {t : MethodTable} (ht : WellNamed P t)
    (hPQ : ∀ m, P m → Q m) : WellNamed Q t :=
  ⟨ht.distinct, fun e he => ⟨(ht.named e he).1, hPQ e.2 (ht.named e he).2⟩⟩

theorem wellNamed_addMissing {P : Method → Prop} {t u : MethodTable} (ht : WellNamed P t)
    (hu : ∀ e ∈ u.entries, e.1 = lower e.2.name ∧ P e.2) : WellNamed P (t.addMissing u) := by
  rw [Table.addMissing]
  generalize u.entries = es at hu
  induction es generalizing t with
  | nil => exact ht
  | cons e es ih =>
    refine ih ?_ (fun x hx => hu x (List.mem_cons_of_mem e hx))
    refine ⟨Table.nodup_keys_insertNew ht.distinct e.1 e.2, ?_⟩
    intro x hx
    rcases Table.mem_entries_insertNew hx with hx | rfl
    · exact ht.named x hx
    · exact hu e List.mem_cons_self

/-- The methods differ in name. -/
theorem WellNamed.nodup_names {P : Method → Prop} {t : MethodTable} (ht : WellNamed P t) :
    (t.values.map fun m => lower m.name).Nodup := by
  have hkeys : (t.values.map fun m => lower m.name) = t.keys := by
    rw [Table.values, Table.keys, List.map_map]
    apply List.map_congr_left
    intro e he
    exact (ht.named e he).1.symm
  rw [hkeys]
  exact ht.distinct

theorem WellNamed.of_mem_values {P : Method → Prop} {t : MethodTable} (ht : WellNamed P t)
    {m : Method} (hm : m ∈ t.values) : P m := by
  obtain ⟨k, hk⟩ := (t.mem_values_iff m).1 hm
  exact (ht.named _ hk).2

theorem WellNamed.of_find? {P : Method → Prop} {t : MethodTable} (ht : WellNamed P t)
    {k : String} {m : Method} (hm : t.find? k = some m) : k = lower m.name ∧ P m :=
  ht.named _ (Table.mem_entries_of_find? hm)

end MethodTable

open MethodTable

namespace Registry

theorem wellNamed_declared {r : Registry} (hr : r.WellKeyed) {name : String} {d : ClassDecl}
    (hd : r.class? name = some d) : WellNamed r.Declares d.methods := by
  have hread := hr.read_of_find? hd
  refine ⟨hread.distinct, ?_⟩
  intro e he
  refine ⟨(hread.methods e he).1, ?_⟩
  exact ⟨name, d, hd, (d.methods.mem_values_iff e.2).2 ⟨e.1, he⟩⟩

/-- Traits add declared methods only. -/
theorem wellNamed_ownMethodsWithin {r : Registry} (hr : r.WellKeyed) {P : Method → Prop}
    (hP : ∀ m, r.Declares m → P m) (depth : Nat) {d : ClassDecl} (hd : WellNamed P d.methods)
    {t : MethodTable} (h : Gives (r.ownMethodsWithin depth d) t) : WellNamed P t := by
  induction depth generalizing P d t with
  | zero => cases h
  | succ depth ih =>
    refine foldlM_keeps (P := WellNamed P) ?_ hd h
    intro methods ref _ more hmethods hmore
    rw [addTrait] at hmore
    split at hmore
    · obtain ⟨_, _, hmore⟩ := (gives_bind_iff _ _ _).1 hmore
      exact (gives_pure_iff _ _).1 hmore ▸ hmethods
    · rename_i trait htrait
      obtain ⟨found, hfound, hmore⟩ := (gives_bind_iff _ _ _).1 hmore
      rw [← (gives_pure_iff _ _).1 hmore]
      have hnamed := ih (fun _ hm => hm) (wellNamed_declared hr htrait) hfound
      exact wellNamed_addMissing hmethods (hnamed.mono hP).named

theorem wellNamed_ownMethods {r : Registry} (hr : r.WellKeyed) {name : String} {d : ClassDecl}
    (hd : r.class? name = some d) {t : MethodTable} (h : Gives (r.ownMethods d) t) :
    WellNamed r.Declares t :=
  wellNamed_ownMethodsWithin hr (fun _ hm => hm) _ (wellNamed_declared hr hd) h

def Offered (r : Registry) (m : Method) : Prop :=
  r.Declares m ∨ m.doc = none

end Registry

namespace Builtin

theorem nodup_interfaceMethods :
    ∀ e ∈ interfaceMethods, (e.2.map fun m => lower m.1).Nodup := by
  decide +kernel

theorem wellNamed_interface? {name : String} {d : ClassDecl} (h : interface? name = some d) :
    WellNamed (fun m => m.doc = none) d.methods := by
  simp only [interface?, Option.bind_eq_bind, Option.bind_eq_some_iff, Option.pure_def,
    Option.some.injEq] at h
  obtain ⟨canonical, _, extended, _, rfl⟩ := h
  constructor
  · simp only [Table.keys, List.map_map]
    cases hl : interfaceMethods.lookup canonical with
    | none => exact List.nodup_nil
    | some ms =>
      obtain ⟨front, back, hsplit, _⟩ := List.lookup_eq_some_iff.1 hl
      exact nodup_interfaceMethods (canonical, ms)
        (hsplit ▸ List.mem_append_right _ List.mem_cons_self)
  · intro e he
    obtain ⟨m, _, rfl⟩ := List.mem_map.1 he
    exact ⟨rfl, rfl⟩

end Builtin

namespace Hierarchy

variable {h : Hierarchy}

def Available (h : Hierarchy) (d : ClassDecl) : Prop :=
  (∃ name, h.registry.class? name = some d) ∨ ∃ name, Builtin.interface? name = some d

theorem available_of_descriptor? {name : String} {d : ClassDecl}
    (hd : h.registry.descriptor? name = some d) : h.Available d := by
  cases descriptor?_cases hd with
  | inl hd => exact .inl ⟨name, hd⟩
  | inr hd => exact .inr ⟨name, hd.2⟩

theorem wellNamed_of_available (hr : h.registry.WellKeyed) {d : ClassDecl} (hd : h.Available d)
    {t : MethodTable} (ht : Gives (h.registry.ownMethods d) t) : WellNamed h.registry.Offered t := by
  refine Registry.wellNamed_ownMethodsWithin hr (fun m hm => .inl hm) _ ?_ ht
  cases hd with
  | inl hd =>
    obtain ⟨n, hd⟩ := hd
    exact (Registry.wellNamed_declared hr hd).mono fun m hm => .inl hm
  | inr hd =>
    obtain ⟨n, hd⟩ := hd
    exact (Builtin.wellNamed_interface? hd).mono fun m hm => .inr hm

def addAncestor (h : Hierarchy) (methods : MethodTable) (ancestor : ClassDecl) :
    TracedOrCycle MethodTable := do
  let more ← h.registry.ownMethods ancestor
  return methods.addMissing more

theorem gives_addAncestor_iff {methods t : MethodTable} {d : ClassDecl} :
    Gives (h.addAncestor methods d) t ↔
      ∃ more, Gives (h.registry.ownMethods d) more ∧ methods.addMissing more = t := by
  rw [addAncestor, gives_bind_iff]
  simp only [gives_pure_iff]

def ancestorDecls (h : Hierarchy) (d : ClassDecl) : List ClassDecl :=
  (h.ancestorsOf d.name).filterMap h.registry.descriptor?

theorem available_of_mem_ancestorDecls {d a : ClassDecl} (ha : a ∈ h.ancestorDecls d) :
    h.Available a := by
  obtain ⟨n, _, hn⟩ := List.mem_filterMap.1 ha
  exact available_of_descriptor? hn

theorem gives_methodsOf_iff {d : ClassDecl} {ms : List Method} :
    Gives (h.methodsOf d) ms ↔ ∃ own t, Gives (h.registry.ownMethods d) own ∧
      Gives ((h.ancestorDecls d).foldlM h.addAncestor own) t ∧ t.values = ms := by
  rw [methodsOf, gives_bind_iff]
  constructor
  · rintro ⟨own, hown, hm⟩
    obtain ⟨names, hnames, hm⟩ := (gives_bind_iff _ _ _).1 hm
    obtain rfl : h.ancestorsOf d.name = names := Except.ok.inj hnames
    obtain ⟨t, ht, hm⟩ := (gives_bind_iff _ _ _).1 hm
    exact ⟨own, t, hown, ht, (gives_pure_iff _ _).1 hm⟩
  · rintro ⟨own, t, hown, ht, hm⟩
    refine ⟨own, hown, (gives_bind_iff _ _ _).2 ⟨h.ancestorsOf d.name, rfl, ?_⟩⟩
    exact (gives_bind_iff _ _ _).2 ⟨t, ht, (gives_pure_iff _ _).2 hm⟩

theorem wellNamed_addAncestors (hr : h.registry.WellKeyed) {ds : List ClassDecl}
    (hds : ∀ d ∈ ds, h.Available d) {methods t : MethodTable}
    (hmethods : WellNamed h.registry.Offered methods) (ht : Gives (ds.foldlM h.addAncestor methods) t) :
    WellNamed h.registry.Offered t := by
  refine foldlM_keeps (P := WellNamed h.registry.Offered) ?_ hmethods ht
  intro methods d hd next hmethods hnext
  obtain ⟨more, hmore, rfl⟩ := gives_addAncestor_iff.1 hnext
  exact wellNamed_addMissing hmethods (wellNamed_of_available hr (hds d hd) hmore).named

/-- All methods of a class-like, inherited ones included, differ in name. -/
theorem methodsOf_spec (hr : h.registry.WellKeyed) {name : String} {d : ClassDecl}
    (hd : h.registry.descriptor? name = some d) {ms : List Method} (hm : Gives (h.methodsOf d) ms) :
    (ms.map fun m => lower m.name).Nodup ∧ ∀ m ∈ ms, h.registry.Offered m := by
  obtain ⟨own, t, hown, ht, rfl⟩ := gives_methodsOf_iff.1 hm
  have hnamed := wellNamed_addAncestors hr (fun _ ha => available_of_mem_ancestorDecls ha)
    (wellNamed_of_available hr (available_of_descriptor? hd) hown) ht
  exact ⟨hnamed.nodup_names, fun m hm => hnamed.of_mem_values hm⟩

end Hierarchy

end ContractCheck
