import ContractCheck.Proofs.Hierarchy.OwnMethods
import ContractCheck.Proofs.Sample
import Mathlib.Data.List.Find
import Mathlib.Logic.Relation

/-!
Finding one method and listing all of them. A call searches traits one by one and goes into none of
them twice, a listing puts whole tables together. Main statement: a call finds the listed method of
its name, and nothing if there is none.
-/
namespace ContractCheck

open Text TracedOrCycle MethodTable

namespace TracedOrCycle

/-- A fold whose steps have the same answers has the same answer. -/
theorem gives_foldlM_mono {α β : Type} {f g : β → α → TracedOrCycle β}
    (hfg : ∀ b a b', Gives (f b a) b' → Gives (g b a) b') {l : List α} {b c : β}
    (h : Gives (l.foldlM f b) c) : Gives (l.foldlM g b) c := by
  induction l generalizing b with
  | nil => exact h
  | cons a l ih =>
    rw [List.foldlM_cons, gives_bind_iff] at h ⊢
    obtain ⟨b', hb', h⟩ := h
    exact ⟨b', hfg b a b' hb', ih h⟩

end TracedOrCycle

namespace Registry

variable {r : Registry}

theorem gives_addTrait_iff {find : ClassDecl → TracedOrCycle MethodTable} {d : ClassDecl}
    {methods t : MethodTable} {ref : String} :
    Gives (r.addTrait find d methods ref) t ↔
      (r.lookup d.scope ref = none ∧ methods = t) ∨
        ∃ trait more, r.lookup d.scope ref = some trait ∧ Gives (find trait) more ∧
          methods.addMissing more = t := by
  rw [addTrait]
  cases r.lookup d.scope ref with
  | none =>
    rw [gives_bind_iff]
    constructor
    · rintro ⟨_, _, h⟩
      exact .inl ⟨rfl, (gives_pure_iff _ _).1 h⟩
    · intro h
      cases h with
      | inl h => exact ⟨(), rfl, (gives_pure_iff _ _).2 h.2⟩
      | inr h =>
        obtain ⟨_, _, h, _⟩ := h
        cases h
  | some trait =>
    rw [gives_bind_iff]
    simp [gives_pure_iff]

/-- A greater depth gives the same methods. -/
theorem gives_ownMethodsWithin_mono {n m : Nat} (hnm : n ≤ m) {d : ClassDecl} {t : MethodTable}
    (h : Gives (r.ownMethodsWithin n d) t) : Gives (r.ownMethodsWithin m d) t := by
  induction n generalizing m d t with
  | zero => cases h
  | succ n ih =>
    obtain ⟨m, rfl⟩ : ∃ k, m = k + 1 := ⟨m - 1, by omega⟩
    apply gives_foldlM_mono ?_ h
    intro methods ref more hmore
    rw [gives_addTrait_iff] at hmore ⊢
    apply hmore.imp_right
    rintro ⟨trait, found, htrait, hfound, heq⟩
    exact ⟨trait, found, htrait, ih (by omega) hfound, heq⟩

def ownSlot? (r : Registry) (key : String) (d : ClassDecl) : Option Method :=
  (r.ownMethods d).run.value.toOption.bind (·.find? key)

def slotOf? (r : Registry) (key name : String) : Option Method :=
  (r.class? name).bind (r.ownSlot? key)

theorem ownSlot?_eq {d : ClassDecl} {t : MethodTable} (h : Gives (r.ownMethods d) t) (key : String) :
    r.ownSlot? key d = t.find? key := by
  rw [ownSlot?, show (r.ownMethods d).run.value = .ok t from h]
  rfl

theorem slotOf?_congr {a b : String} (h : nameKey a = nameKey b) (key : String) :
    r.slotOf? key a = r.slotOf? key b := by
  rw [slotOf?, slotOf?, class?, class?, h]

/-- The depth that is enough for all traits. -/
theorem gives_ownMethods {n : Nat} (hn : n ≤ r.classes.entries.length + 1) {d : ClassDecl}
    {t : MethodTable} (h : Gives (r.ownMethodsWithin n d) t) : Gives (r.ownMethods d) t :=
  gives_ownMethodsWithin_mono hn h

/-- The table after the traits were added has a method where it was there before, or else where the
first of the traits has it; and each of the traits has a table. -/
theorem find?_addTraits {n : Nat} (hn : n ≤ r.classes.entries.length + 1) {d : ClassDecl}
    {refs : List String} {methods t : MethodTable}
    (h : Gives (refs.foldlM (r.addTrait (r.ownMethodsWithin n) d) methods) t) :
    (∀ key, t.find? key =
      (methods.find? key).or ((refs.map (r.resolve d.scope)).findSome? (r.slotOf? key))) ∧
      ∀ name ∈ refs.map (r.resolve d.scope), ∀ trait, r.class? name = some trait →
        ∃ more, Gives (r.ownMethodsWithin n trait) more := by
  induction refs generalizing methods with
  | nil =>
    rw [List.foldlM_nil, gives_pure_iff] at h
    subst h
    simp
  | cons ref refs ih =>
    rw [List.foldlM_cons, gives_bind_iff] at h
    obtain ⟨next, hnext, h⟩ := h
    obtain ⟨hfind, htables⟩ := ih h
    rw [gives_addTrait_iff] at hnext
    cases hnext with
    | inl hnext =>
      obtain ⟨hnone, rfl⟩ := hnext
      rw [lookup] at hnone
      constructor
      · intro key
        rw [hfind, List.map_cons, List.findSome?_cons, slotOf?, hnone]
        rfl
      · intro name hname trait htrait
        cases List.mem_cons.1 hname with
        | inl hname =>
          rw [hname, hnone] at htrait
          cases htrait
        | inr hname => exact htables name hname trait htrait
    | inr hnext =>
      obtain ⟨trait, more, hsome, hmore, rfl⟩ := hnext
      rw [lookup] at hsome
      constructor
      · intro key
        have hslot : r.slotOf? key (r.resolve d.scope ref) = more.find? key := by
          rw [slotOf?, hsome]
          exact ownSlot?_eq (gives_ownMethods hn hmore) key
        rw [hfind, Table.find?_addMissing, List.map_cons, List.findSome?_cons, hslot,
          Option.or_assoc]
        cases more.find? key <;> rfl
      · intro name hname trait' htrait
        cases List.mem_cons.1 hname with
        | inl hname =>
          rw [hname, hsome, Option.some.injEq] at htrait
          exact ⟨more, htrait ▸ hmore⟩
        | inr hname => exact htables name hname trait' htrait

def Uses (r : Registry) (k k' : String) : Prop :=
  ∃ d, r.classes.find? k = some d ∧ ∃ name ∈ r.traitsOf d, nameKey name = k'

/-- A class-like that has a table does not reach itself over the traits it uses. -/
theorem not_uses_itself {n : Nat} (hn : n ≤ r.classes.entries.length + 1) {k : String}
    {d : ClassDecl} (hd : r.classes.find? k = some d) {t : MethodTable}
    (h : Gives (r.ownMethodsWithin n d) t) : ¬ Relation.TransGen r.Uses k k := by
  induction n generalizing k d t with
  | zero => cases h
  | succ n ih =>
    intro hcycle
    obtain ⟨k', hfirst, hback⟩ := Relation.TransGen.head'_iff.1 hcycle
    obtain ⟨d', hd', name, hname, rfl⟩ := id hfirst
    obtain rfl : d = d' := Option.some.inj (hd.symm.trans hd')
    -- the trait that comes next on the way round is registered, as all others on it are
    have hregistered : ∃ trait, r.class? name = some trait := by
      cases Relation.ReflTransGen.cases_head hback with
      | inl heq =>
        rw [← heq] at hd
        exact ⟨d, hd⟩
      | inr hstep =>
        obtain ⟨_, ⟨trait, htrait, _⟩, _⟩ := hstep
        exact ⟨trait, htrait⟩
    obtain ⟨trait, htrait⟩ := hregistered
    obtain ⟨more, hmore⟩ := (find?_addTraits (by omega) h).2 name hname trait htrait
    exact ih (by omega) htrait hmore (Relation.TransGen.tail' hback hfirst)

theorem traitMethodFrom_nil (r : Registry) (name : String) (seen : List String) :
    r.traitMethodFrom name seen [] = none := by
  rw [traitMethodFrom]

theorem traitMethodFrom_unknown {name trait : String} {seen stack : List String}
    (hd : r.class? trait = none) :
    r.traitMethodFrom name seen (trait :: stack) = r.traitMethodFrom name seen stack := by
  rw [traitMethodFrom]
  split
  · rfl
  · simp_all

theorem traitMethodFrom_seen {name trait : String} {seen stack : List String}
    (hs : nameKey trait ∈ seen) :
    r.traitMethodFrom name seen (trait :: stack) = r.traitMethodFrom name seen stack := by
  rw [traitMethodFrom]
  split
  · rfl
  · rw [if_pos hs]

theorem traitMethodFrom_declared {name trait : String} {seen stack : List String} {d : ClassDecl}
    {m : Method} (hd : r.class? trait = some d) (hs : nameKey trait ∉ seen)
    (hm : d.method? name = some m) :
    r.traitMethodFrom name seen (trait :: stack) = some m := by
  rw [traitMethodFrom]
  split <;> simp_all

theorem traitMethodFrom_deeper {name trait : String} {seen stack : List String} {d : ClassDecl}
    (hd : r.class? trait = some d) (hs : nameKey trait ∉ seen) (hm : d.method? name = none) :
    r.traitMethodFrom name seen (trait :: stack) =
      r.traitMethodFrom name (nameKey trait :: seen) (r.traitsOf d ++ stack) := by
  rw [traitMethodFrom]
  split <;> simp_all

def SeenLack (r : Registry) (name : String) (seen traits : List String) : Prop :=
  ∀ x ∈ traits, ∀ y, Relation.ReflTransGen r.Uses (nameKey x) (nameKey y) → nameKey y ∈ seen →
    r.slotOf? (lower name) y = none

def AddsLacking (r : Registry) (name : String) (seen seen' : List String) : Prop :=
  ∀ y, nameKey y ∈ seen' → nameKey y ∈ seen ∨ r.slotOf? (lower name) y = none

/-- A search through some traits finds what the first of them has that has the method, and goes on
behind them only if none has. -/
def FindsFirst (r : Registry) (name : String) (seen traits rest : List String) : Prop :=
  ∃ seen', r.AddsLacking name seen seen' ∧
    r.traitMethodFrom name seen (traits ++ rest) =
      (traits.findSome? (r.slotOf? (lower name))).or (r.traitMethodFrom name seen' rest)

section

variable {name x : String} {seen traits rest : List String} {d : ClassDecl}

theorem addsLacking_refl (r : Registry) (name : String) (seen : List String) :
    r.AddsLacking name seen seen :=
  fun _ hy => .inl hy

theorem AddsLacking.trans {seen' seen'' : List String} (h : r.AddsLacking name seen seen')
    (h' : r.AddsLacking name seen' seen'') : r.AddsLacking name seen seen'' := by
  intro y hy
  cases h' y hy with
  | inl hy => exact h y hy
  | inr hy => exact .inr hy

theorem SeenLack.of_addsLacking {seen' : List String} (hl : r.SeenLack name seen traits)
    (h : r.AddsLacking name seen seen') : r.SeenLack name seen' traits := by
  intro x hx y hxy hy
  cases h y hy with
  | inl hy => exact hl x hx y hxy hy
  | inr hy => exact hy

/-- Below a trait that has a table lie neither the trait itself nor other class-likes that were seen
and may have the method. -/
theorem SeenLack.below {n : Nat} (hn : n ≤ r.classes.entries.length + 1)
    (hl : r.SeenLack name seen (x :: traits)) (hd : r.class? x = some d) {t : MethodTable}
    (ht : Gives (r.ownMethodsWithin n d) t) :
    r.SeenLack name (nameKey x :: seen) (r.traitsOf d) := by
  intro y hy z hyz hz
  have hxy : r.Uses (nameKey x) (nameKey y) := ⟨d, hd, y, hy, rfl⟩
  cases List.mem_cons.1 hz with
  | inl hz =>
    rw [hz] at hyz
    exact absurd (.head' hxy hyz) (not_uses_itself hn hd ht)
  | inr hz => exact hl x List.mem_cons_self z (.head hxy hyz) hz

theorem FindsFirst.skip
    (hstep : r.traitMethodFrom name seen (x :: (traits ++ rest)) =
      r.traitMethodFrom name seen (traits ++ rest))
    (hnone : r.slotOf? (lower name) x = none) (h : r.FindsFirst name seen traits rest) :
    r.FindsFirst name seen (x :: traits) rest := by
  obtain ⟨seen', hadds, hsearch⟩ := h
  refine ⟨seen', hadds, ?_⟩
  rw [List.cons_append, hstep, hsearch, List.findSome?_cons, hnone]

/-- A trait that does not declare the method itself has it where its own traits do. -/
theorem FindsFirst.deeper (hd : r.class? x = some d) (hs : nameKey x ∉ seen)
    (hm : d.method? name = none)
    (hslot : r.slotOf? (lower name) x = (r.traitsOf d).findSome? (r.slotOf? (lower name)))
    (hbelow : r.FindsFirst name (nameKey x :: seen) (r.traitsOf d) (traits ++ rest))
    (hrest : ∀ seen', r.AddsLacking name seen seen' → r.FindsFirst name seen' traits rest) :
    r.FindsFirst name seen (x :: traits) rest := by
  obtain ⟨inner, hinner, hsearch⟩ := hbelow
  rw [FindsFirst, List.cons_append, traitMethodFrom_deeper hd hs hm, hsearch, List.findSome?_cons,
    hslot]
  cases hfirst : (r.traitsOf d).findSome? (r.slotOf? (lower name)) with
  | some m => exact ⟨seen, addsLacking_refl r name seen, rfl⟩
  | none =>
    have hx : r.AddsLacking name seen (nameKey x :: seen) := by
      intro y hy
      cases List.mem_cons.1 hy with
      | inl hy => exact .inr (by rw [slotOf?_congr hy, hslot, hfirst])
      | inr hy => exact .inl hy
    obtain ⟨last, hlast, hsearch'⟩ := hrest inner (hx.trans hinner)
    exact ⟨last, (hx.trans hinner).trans hlast, hsearch'⟩

end

/-- Traits that all have tables are searched in order, also where they use the same traits: what a
search does not go into a second time lacks the method. -/
theorem findsFirst {n : Nat} (hn : n ≤ r.classes.entries.length + 1) (name : String)
    (traits rest seen : List String)
    (htables : ∀ x ∈ traits, ∀ d, r.class? x = some d → ∃ t, Gives (r.ownMethodsWithin n d) t)
    (hseen : r.SeenLack name seen traits) : r.FindsFirst name seen traits rest := by
  -- outside the nesting of traits, inside the traits of one class-like
  induction n using Nat.strongRecOn generalizing traits rest seen with
  | ind n ihn =>
    induction traits generalizing seen with
    | nil => exact ⟨seen, addsLacking_refl r name seen, rfl⟩
    | cons x traits ih =>
      have hrest : ∀ seen', r.AddsLacking name seen seen' → r.FindsFirst name seen' traits rest := by
        intro seen' hadds
        have hlack : r.SeenLack name seen traits := fun y hy => hseen y (List.mem_cons_of_mem x hy)
        exact ih seen' (fun y hy => htables y (List.mem_cons_of_mem x hy))
          (hlack.of_addsLacking hadds)
      have hskip := hrest seen (addsLacking_refl r name seen)
      cases hd : r.class? x with
      | none => exact hskip.skip (traitMethodFrom_unknown hd) (by rw [slotOf?, hd]; rfl)
      | some d =>
        by_cases hs : nameKey x ∈ seen
        · exact hskip.skip (traitMethodFrom_seen hs) (hseen x List.mem_cons_self x .refl hs)
        · obtain ⟨t, ht⟩ := htables x List.mem_cons_self d hd
          cases n with
          | zero => cases ht
          | succ n =>
            obtain ⟨hfind, hbelow⟩ := find?_addTraits (by omega) ht
            have hslot : r.slotOf? (lower name) x = (d.method? name).or
                ((r.traitsOf d).findSome? (r.slotOf? (lower name))) := by
              rw [slotOf?, hd]
              exact (ownSlot?_eq (gives_ownMethods hn ht) _).trans (hfind _)
            cases hm : d.method? name with
            | some m =>
              refine ⟨seen, addsLacking_refl r name seen, ?_⟩
              rw [List.cons_append, traitMethodFrom_declared hd hs hm, List.findSome?_cons, hslot, hm]
              rfl
            | none =>
              rw [hm, Option.none_or] at hslot
              exact FindsFirst.deeper hd hs hm hslot
                (ihn n (by omega) (by omega) _ _ _ hbelow (hseen.below hn hd ht)) hrest

/-- The search for a method of a class-like finds what is in its table. -/
theorem ownMethod?_eq_find? (hr : r.WellKeyed) {d : ClassDecl}
    (hd : (∃ n, r.class? n = some d) ∨ d.traitRefs = []) {t : MethodTable}
    (h : Gives (r.ownMethods d) t) (name : String) :
    r.ownMethod? d name = t.find? (lower name) := by
  have hfind := (find?_addTraits (Nat.le_succ _) h).1 (lower name)
  rw [ownMethod?, Option.orElse_eq_or, hfind]
  congr 1
  show r.traitMethodFrom name [lower d.name] (r.traitsOf d) =
    (r.traitsOf d).findSome? (r.slotOf? (lower name))
  cases hd with
  | inl hd =>
    obtain ⟨n, hd⟩ := hd
    have hlack : r.SeenLack name [lower d.name] (r.traitsOf d) := by
      have hnone : r.SeenLack name [] [n] := fun _ _ _ _ hy => absurd hy List.not_mem_nil
      rw [hr.lower_name_of_class? hd]
      exact hnone.below (Nat.le_refl _) hd h
    obtain ⟨_, _, hsearch⟩ := findsFirst (Nat.le_succ _) name (r.traitsOf d) [] [lower d.name]
      (find?_addTraits (Nat.le_succ _) h).2 hlack
    rw [List.append_nil] at hsearch
    rw [hsearch, traitMethodFrom_nil, Option.or_none]
  | inr hd => rw [traitsOf, hd, List.map_nil, traitMethodFrom_nil, List.findSome?_nil]

end Registry

namespace Hierarchy

variable {h : Hierarchy}

theorem inheritedMethod?_eq_findSome? {name : String} {names : List String}
    {f : ClassDecl → Option Method}
    (hf : ∀ d ∈ names.filterMap h.registry.descriptor?, h.registry.ownMethod? d name = f d) :
    h.inheritedMethod? name names = (names.filterMap h.registry.descriptor?).findSome? f := by
  induction names with
  | nil => rfl
  | cons ancestor names ih =>
    rw [inheritedMethod?]
    cases hd : h.registry.descriptor? ancestor with
    | none =>
      rw [List.filterMap_cons_none hd] at hf ⊢
      exact ih hf
    | some d =>
      rw [List.filterMap_cons_some hd] at hf ⊢
      rw [ih fun d' hd' => hf d' (List.mem_cons_of_mem d hd'), List.findSome?_cons,
        Option.bind_some, hf d List.mem_cons_self]
      cases f d <;> rfl

/-- The tables of ancestors, put together, have a method where the first of them has it. -/
theorem find?_addAncestors {ds : List ClassDecl} {methods t : MethodTable}
    (ht : Gives (ds.foldlM h.addAncestor methods) t) :
    (∀ key, t.find? key = (methods.find? key).or (ds.findSome? (h.registry.ownSlot? key))) ∧
      ∀ d ∈ ds, ∃ more, Gives (h.registry.ownMethods d) more := by
  induction ds generalizing methods with
  | nil =>
    rw [List.foldlM_nil, gives_pure_iff] at ht
    subst ht
    simp
  | cons d ds ih =>
    rw [List.foldlM_cons, gives_bind_iff] at ht
    obtain ⟨next, hnext, ht⟩ := ht
    obtain ⟨more, hmore, rfl⟩ := gives_addAncestor_iff.1 hnext
    obtain ⟨hfind, htables⟩ := ih ht
    constructor
    · intro key
      rw [hfind, Table.find?_addMissing, List.findSome?_cons, Registry.ownSlot?_eq hmore,
        Option.or_assoc]
      cases more.find? key <;> rfl
    · intro d' hd'
      cases List.mem_cons.1 hd' with
      | inl heq => exact ⟨more, heq ▸ hmore⟩
      | inr hin => exact htables d' hin

theorem ownMethod?_of_available (hr : h.registry.WellKeyed) {d : ClassDecl} (hd : h.Available d)
    {t : MethodTable} (ht : Gives (h.registry.ownMethods d) t) (name : String) :
    h.registry.ownMethod? d name = t.find? (lower name) := by
  apply Registry.ownMethod?_eq_find? hr ?_ ht
  cases hd with
  | inl hd => exact .inl hd
  | inr hd =>
    obtain ⟨n, hd⟩ := hd
    exact .inr (Builtin.interface?_spec hd).1

/-- What a call finds stands in the table of all methods. -/
theorem findMethod_eq_table (hr : h.registry.WellKeyed) {d : ClassDecl} (hd : h.Available d)
    {own t : MethodTable} (hown : Gives (h.registry.ownMethods d) own)
    (ht : Gives ((h.ancestorDecls d).foldlM h.addAncestor own) t) (name : String) :
    (h.findMethod d name).value = t.find? (lower name) := by
  obtain ⟨hfind, htables⟩ := find?_addAncestors ht
  have hinherited : h.inheritedMethod? name (h.ancestorsOf d.name) =
      (h.ancestorDecls d).findSome? (h.registry.ownSlot? (lower name)) := by
    apply inheritedMethod?_eq_findSome?
    intro a ha
    obtain ⟨more, hmore⟩ := htables a ha
    rw [ownMethod?_of_available hr (available_of_mem_ancestorDecls ha) hmore,
      Registry.ownSlot?_eq hmore]
  rw [hfind, ← ownMethod?_of_available hr hd hown, findMethod, ← hinherited]
  cases h.registry.ownMethod? d name <;> rfl

/-- Looked up by name, a list of methods of different names is its table. -/
theorem find?_values {P : Method → Prop} {t : MethodTable} (ht : WellNamed P t) (key : String) :
    t.values.find? (fun m => lower m.name = key) = t.find? key := by
  rw [Table.values, List.find?_map, Table.find?]
  congr 1
  apply List.find?_congr
  intro e he
  rw [Function.comp_apply, (ht.named e he).1]

/-- A call on a class-like, registered or built in, runs the one of all its methods that has the name
of the call, in any letter case; there are no two such methods, and where there is none the call runs
none. -/
theorem findMethod_eq_find? (hr : h.registry.Indexed) {d : ClassDecl} (hd : h.Available d)
    {ms : List Method} (hm : Gives (h.methodsOf d) ms) :
    (ms.map fun m => lower m.name).Nodup ∧
      ∀ name, (h.findMethod d name).value = ms.find? (fun m => lower m.name = lower name) ∧
        ((h.findMethod d name).value = none ↔ ∀ m ∈ ms, lower m.name ≠ lower name) := by
  obtain ⟨own, t, hown, ht, rfl⟩ := gives_methodsOf_iff.1 hm
  have hnamed := wellNamed_addAncestors hr.wellKeyed
    (fun _ ha => available_of_mem_ancestorDecls ha) (wellNamed_of_available hr.wellKeyed hd hown) ht
  refine ⟨hnamed.nodup_names, ?_⟩
  intro name
  rw [findMethod_eq_table hr.wellKeyed hd hown ht, ← find?_values hnamed, List.find?_eq_none]
  simp only [decide_eq_true_eq, ne_eq, true_and]

def traitDiamond : Hierarchy :=
  ofRegistry (Sample.registry [
    Sample.classLike "trait_declaration" "T" [] [] [Sample.method "f" []],
    Sample.classLike "trait_declaration" "U" [] [] [Sample.use "use T;"],
    Sample.classLike "trait_declaration" "V" [] [] [Sample.use "use T;", Sample.method "g" []],
    Sample.classLike "class_declaration" "P" [] [] [Sample.method "F" [], Sample.method "h" []],
    Sample.classLike "class_declaration" "C" ["P"] [] [Sample.use "use U, V;"]])

/-- The method that two traits share is found once, before that of the parent class. -/
theorem findMethod_eq_find?_diamond :
    ∃ d ms, traitDiamond.registry.class? "C" = some d ∧ Gives (traitDiamond.methodsOf d) ms ∧
      ms.map (·.qualifiedName) = ["T::f", "V::g", "P::h"] ∧
      ∀ name, (traitDiamond.findMethod d name).value =
        ms.find? (fun m => lower m.name = lower name) := by
  have hsome : (traitDiamond.registry.class? "C").isSome := by decide +kernel
  have hlist : ∀ d ∈ traitDiamond.registry.class? "C",
      (traitDiamond.methodsOf d).run.value.toOption.map (·.map (·.qualifiedName)) =
        some ["T::f", "V::g", "P::h"] := by decide +kernel
  obtain ⟨d, hd⟩ := Option.isSome_iff_exists.1 hsome
  obtain ⟨ms, hms, hqualified⟩ := Option.map_eq_some_iff.1 (hlist d hd)
  have hgives := (gives_iff_toOption _ _).2 hms
  refine ⟨d, ms, hd, hgives, hqualified, ?_⟩
  intro name
  exact ((findMethod_eq_find? (Sample.indexed_registry _) (.inl ⟨"C", hd⟩) hgives).2 name).1

end Hierarchy

end ContractCheck
