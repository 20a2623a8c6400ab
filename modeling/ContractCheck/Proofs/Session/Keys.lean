import ContractCheck.Proofs.Session.Recall
import ContractCheck.Proofs.Text.Ascii

/-!
The keys under which traces are remembered. Where all names are ASCII, frames that questions can
name and that share a key have the same trace.
-/
namespace ContractCheck

open Text MethodTable

namespace Builtin

theorem ascii_names : ∀ e ∈ interfaces, Ascii e.1 := by
  decide +kernel

theorem ascii_methods : ∀ e ∈ interfaceMethods, ∀ m ∈ e.2, Ascii m.1 := by
  decide +kernel

theorem ascii_interface? {name : String} {d : ClassDecl} (h : interface? name = some d) :
    Ascii d.name ∧ ∀ m ∈ d.methods.values, Ascii m.name := by
  simp only [interface?, Option.bind_eq_bind, Option.bind_eq_some_iff, Option.pure_def,
    Option.some.injEq] at h
  obtain ⟨canonical, _, extended, hextended, rfl⟩ := h
  obtain ⟨front, back, hsplit, _⟩ := List.lookup_eq_some_iff.1 hextended
  have hmem : (canonical, extended) ∈ interfaces :=
    hsplit ▸ List.mem_append_right _ List.mem_cons_self
  refine ⟨ascii_names _ hmem, ?_⟩
  intro m hm
  simp only [Table.values, List.map_map, List.mem_map] at hm
  obtain ⟨e, he, rfl⟩ := hm
  cases hl : interfaceMethods.lookup canonical with
  | none =>
    rw [hl] at he
    cases he
  | some ms =>
    rw [hl] at he
    obtain ⟨before, after, hparts, _⟩ := List.lookup_eq_some_iff.1 hl
    exact ascii_methods (canonical, ms) (hparts ▸ List.mem_append_right _ List.mem_cons_self) e he

theorem owner_interface? {name : String} {d : ClassDecl} (h : interface? name = some d) :
    ∀ m ∈ d.methods.values, m.owner = d.name := by
  simp only [interface?, Option.bind_eq_bind, Option.bind_eq_some_iff, Option.pure_def,
    Option.some.injEq] at h
  obtain ⟨canonical, _, extended, _, rfl⟩ := h
  intro m hm
  simp only [Table.values, List.map_map, List.mem_map] at hm
  obtain ⟨e, _, rfl⟩ := hm
  rfl

theorem interface?_congr {a b : String} (h : nameKey a = nameKey b) :
    interface? a = interface? b := by
  simp only [interface?, name?, h]

end Builtin

namespace Registry

def AsciiNames (r : Registry) : Prop :=
  ∀ d ∈ r.classes.values, Ascii d.name ∧ ∀ m ∈ d.methods.values, Ascii m.name

instance (r : Registry) : Decidable r.AsciiNames :=
  inferInstanceAs (Decidable (∀ _ ∈ _, _))

section

variable {r : Registry} {name : String} {d : ClassDecl}

theorem AsciiNames.of_descriptor? (ha : r.AsciiNames) (hd : r.descriptor? name = some d) :
    Ascii d.name ∧ ∀ m ∈ d.methods.values, Ascii m.name := by
  cases Hierarchy.descriptor?_cases hd with
  | inl hd => exact ha d (Table.mem_values_of_find? hd)
  | inr hd => exact Builtin.ascii_interface? hd.2

/-- Each method that a class-like provides stands under its name, and has it as its owner. -/
theorem wellNamed_descriptor? (hr : r.WellKeyed) (hd : r.descriptor? name = some d) :
    WellNamed (fun m => m.owner = d.name) d.methods := by
  cases Hierarchy.descriptor?_cases hd with
  | inl hd =>
    have hread := hr.read_of_find? hd
    exact ⟨hread.distinct, hread.methods⟩
  | inr hd =>
    have hwell := Builtin.wellNamed_interface? hd.2
    refine ⟨hwell.distinct, ?_⟩
    intro e he
    have hmem : e.2 ∈ d.methods.values := (Table.mem_values_iff _ _).2 ⟨e.1, he⟩
    exact ⟨(hwell.named e he).1, Builtin.owner_interface? hd.2 e.2 hmem⟩

theorem descriptor?_congr (r : Registry) {a b : String} (h : nameKey a = nameKey b) :
    r.descriptor? a = r.descriptor? b := by
  rw [descriptor?, descriptor?, class?, class?, h, Builtin.interface?_congr h]

/-- Class-likes of one name are one. -/
theorem descriptor?_unique (hr : r.WellKeyed) (hd : r.descriptor? name = some d) {name' : String}
    {d' : ClassDecl} (hd' : r.descriptor? name' = some d') (h : lower d.name = lower d'.name) :
    d = d' := by
  have hkey : nameKey name = nameKey name' := by
    rw [← Hierarchy.lower_name_of_descriptor? hr hd, h, Hierarchy.lower_name_of_descriptor? hr hd']
  rw [r.descriptor?_congr hkey, hd'] at hd
  exact (Option.some.inj hd).symm

theorem nameKey_name_of_descriptor? (hr : r.WellKeyed) (hd : r.descriptor? name = some d) :
    nameKey d.name = nameKey name := by
  have hlower := Hierarchy.lower_name_of_descriptor? hr hd
  rw [nameKey_of_unslashed (unslashed_of_lower_eq_nameKey hlower), hlower]

/-- A class-like is found under its own name. -/
theorem descriptor?_name (hr : r.WellKeyed) (hd : r.descriptor? name = some d) :
    r.descriptor? d.name = some d := by
  rw [r.descriptor?_congr (nameKey_name_of_descriptor? hr hd), hd]

/-- A method that is provided is found by the name of its owner and its own one. -/
theorem Provides.find? (hr : r.WellKeyed) {m : Method} (hm : r.Provides m) :
    ∃ d, r.descriptor? m.owner = some d ∧ d.method? m.name = some m := by
  obtain ⟨n, d, hd, hmem⟩ := hm
  have hwell := wellNamed_descriptor? hr hd
  obtain ⟨key, hkey⟩ := (d.methods.mem_values_iff m).1 hmem
  have hname : key = lower m.name := (hwell.named _ hkey).1
  have howner : m.owner = d.name := (hwell.named _ hkey).2
  refine ⟨d, ?_, ?_⟩
  · rw [howner]
    exact descriptor?_name hr hd
  · rw [ClassDecl.method?, ← hname]
    exact Table.find?_of_mem hwell.distinct hkey

/-- Methods of one owner and one name are one. -/
theorem Provides.unique (hr : r.WellKeyed) {m m' : Method} (hm : r.Provides m)
    (hm' : r.Provides m') (howner : lower m.owner = lower m'.owner)
    (hname : lower m.name = lower m'.name) : m = m' := by
  obtain ⟨d, hd, hfind⟩ := hm.find? hr
  obtain ⟨d', hd', hfind'⟩ := hm'.find? hr
  rw [r.descriptor?_congr (nameKey_congr howner), hd', Option.some.injEq] at hd
  subst hd
  rw [ClassDecl.method?, hname, ← ClassDecl.method?, hfind', Option.some.injEq] at hfind
  exact hfind.symm

end

end Registry

namespace Hierarchy

/-- A method without a body throws nothing. -/
theorem trace_of_no_body (h : Hierarchy) {f : Frame} (hf : f.method.body = none) :
    (h.trace f).value = {} := by
  rw [trace, maxDepth, analyze]
  simp only [hf]
  rfl

end Hierarchy

namespace Frame

variable {r : Registry}

/-- A frame with a body that questions can name runs on a class-like. -/
theorem Askable.context_on (hr : r.WellKeyed) {f : Frame} (hf : f.Askable r)
    (hbody : f.method.body.isSome) :
    ∃ c name, (f.on r).context = some c ∧ r.descriptor? name = some c := by
  cases hcontext : f.context with
  | some c =>
    obtain ⟨name, hname⟩ := hf.context c hcontext
    refine ⟨c, name, ?_, hname⟩
    rw [on, hcontext]
    rfl
  | none =>
    obtain ⟨d, hd, hfind⟩ := hf.method.find? hr
    cases Hierarchy.descriptor?_cases hd with
    | inl hclass =>
      refine ⟨d, f.method.owner, ?_, hd⟩
      rw [on, hcontext]
      exact hclass
    | inr hbuiltin =>
      have hnone := (Builtin.interface?_spec hbuiltin.2).2 _ (Table.mem_values_of_find? hfind)
      rw [hnone] at hbody
      cases hbody

theorem Askable.ascii (hr : r.WellKeyed) (ha : r.AsciiNames) {f : Frame} (hf : f.Askable r) :
    Ascii f.method.owner ∧ Ascii f.method.name := by
  obtain ⟨_, d, hd, hm⟩ := hf.method
  obtain ⟨hname, hmethods⟩ := ha.of_descriptor? hd
  rw [(Registry.wellNamed_descriptor? hr hd).of_mem_values hm]
  exact ⟨hname, hmethods _ hm⟩

theorem trace_eq_of_memoKey (hr : r.WellKeyed) (ha : r.AsciiNames) {f g : Frame} (hf : f.Askable r)
    (hg : g.Askable r) (h : (f.on r).memoKey = (g.on r).memoKey) :
    ((Hierarchy.ofRegistry r).trace (f.on r)).value =
      ((Hierarchy.ofRegistry r).trace (g.on r)).value := by
  have hascii := hf.ascii hr ha
  have hascii' := hg.ascii hr ha
  obtain ⟨hkey, hcontext⟩ := Prod.mk.inj h
  obtain ⟨howner, hname⟩ :=
    Ascii.qualified_inj hascii.1 hascii'.1 hascii.2 hascii'.2 hkey
  have hmethod : f.method = g.method := hf.method.unique hr hg.method howner hname
  -- a key says no more than the name of the class-like, and nothing where there is none: then the
  -- method is one of a builtin interface, and has no body
  cases hbody : f.method.body with
  | none =>
    have hbody' : (g.on r).method.body = none := by
      rw [← hbody, hmethod]
      rfl
    rw [Hierarchy.trace_of_no_body _ (f := f.on r) hbody, Hierarchy.trace_of_no_body _ hbody']
  | some body =>
    have hsome : f.method.body.isSome := by rw [hbody, Option.isSome_some]
    obtain ⟨c, n, hc, hdesc⟩ := hf.context_on hr hsome
    obtain ⟨c', n', hc', hdesc'⟩ := hg.context_on hr (hmethod ▸ hsome)
    rw [hc, hc'] at hcontext
    have hcc : c = c' := Registry.descriptor?_unique hr hdesc hdesc' hcontext
    have hframe : f.on r = g.on r := by
      rw [Frame.mk.injEq]
      exact ⟨hmethod, by rw [hc, hc', hcc]⟩
    rw [hframe]

end Frame

end ContractCheck
