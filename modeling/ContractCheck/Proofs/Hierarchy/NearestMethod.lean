import ContractCheck.Proofs.Hierarchy.Distance
import ContractCheck.Proofs.Hierarchy.TraitCycles
import ContractCheck.Proofs.Session.Keys

/-!
Which class-like a call lands on. Parents and interfaces are searched together, the nearer before the
farther, and of those that are equally far the parent class before all others. Main statement: a call
lands on a nearest class-like that has the method, which is on the chain of parents only if no
interface is nearer.
-/
namespace ContractCheck

open Text TracedOrCycle

namespace Registry

def StandsAbove (r : Registry) (d : ClassDecl) (k : Nat) (x : ClassDecl) : Prop :=
  ∃ a, r.Climbs d.name k a ∧ r.descriptor? a = some x

inductive Inherits (r : Registry) (d : ClassDecl) : Nat → ClassDecl → Prop
  | start : r.Inherits d 0 d
  | step {k : Nat} {e p : ClassDecl} (h : r.Inherits d k e)
      (hp : (r.parentOf e).bind r.class? = some p) : r.Inherits d (k + 1) p

def Nearer (r : Registry) (name : String) (k : Nat) (key : String) : Prop :=
  ∃ j < k, r.ReachedIn name j key

section

variable {r : Registry} {name key : String} {k : Nat} {d e p x : ClassDecl}

theorem Nearer.mono {l : Nat} (h : r.Nearer name k key) (hkl : k ≤ l) : r.Nearer name l key := by
  obtain ⟨j, hj, h⟩ := h
  exact ⟨j, by omega, h⟩

theorem Nearer.step (h : r.Nearer name k key) {s : String} (hs : s ∈ r.supertypesOfKey key) :
    r.Nearer name (k + 1) (nameKey s) := by
  obtain ⟨j, hj, h⟩ := h
  exact ⟨j + 1, by omega, reachedIn_succ_iff.2 ⟨key, h, s, hs, rfl⟩⟩

theorem Inherits.class?_name (hr : r.WellKeyed) (hd : r.class? d.name = some d)
    (h : r.Inherits d k e) : r.class? e.name = some e := by
  cases h with
  | start => exact hd
  | step _ hp =>
    obtain ⟨n, _, hn⟩ := Option.bind_eq_some_iff.1 hp
    exact Registry.class?_name hr hn

/-- The parent class comes first among the direct supertypes. -/
theorem directSupertypes_eq_cons (hr : r.WellKeyed) (he : r.class? e.name = some e)
    (hp : (r.parentOf e).bind r.class? = some p) {front : String}
    (hfront : nameKey front = nameKey e.name) :
    ∃ parent others, r.directSupertypes front = parent :: others ∧
      nameKey parent = nameKey p.name := by
  obtain ⟨parent, hparent, hclass⟩ := Option.bind_eq_some_iff.1 hp
  refine ⟨parent, e.interfaceRefs.map (r.resolve e.scope) ++
    (if e.kind = .enum then ["UnitEnum"] else []), ?_, ?_⟩
  · rw [class?] at he
    rw [directSupertypes, hfront, supertypesOfKey, he]
    simp [hparent]
  · exact (nameKey_name_of_descriptor? hr (Hierarchy.descriptor?_of_class? hclass)).symm

theorem Inherits.reachedIn (hr : r.WellKeyed) (hd : r.class? d.name = some d)
    (h : r.Inherits d k e) : r.ReachedIn d.name k (nameKey e.name) := by
  induction h with
  | start => exact reachedIn_zero_iff.2 rfl
  | @step k e p h hp ih =>
    obtain ⟨parent, others, hsupers, hparent⟩ :=
      directSupertypes_eq_cons hr (h.class?_name hr hd) hp rfl
    have hmem : parent ∈ r.directSupertypes e.name := hsupers ▸ List.mem_cons_self
    exact reachedIn_succ_iff.2 ⟨_, ih, parent, hmem, hparent⟩

/-- The first names of a queue are worked off before the others, and their supertypes come last. -/
theorem exists_ancestorsFrom_append (r : Registry) (first later seen : List String) :
    ∃ kept more seen', r.ancestorsFrom seen (first ++ later) =
        kept ++ r.ancestorsFrom seen' (later ++ more) ∧
      kept ⊆ first ∧ (∀ q ∈ more, ∃ x ∈ kept, q ∈ r.directSupertypes x) ∧
      ∀ key ∈ seen', key ∈ seen ∨ key ∈ kept.map nameKey := by
  induction first generalizing later seen with
  | nil => exact ⟨[], [], seen, by simp, by simp, by simp, fun key hkey => .inl hkey⟩
  | cons q first ih =>
    rw [List.cons_append, ancestorsFrom]
    by_cases hq : nameKey q ∈ seen
    · obtain ⟨kept, more, seen', hlist, hkept, hmore, hseen⟩ := ih later seen
      rw [if_pos hq]
      exact ⟨kept, more, seen', hlist, List.subset_cons_of_subset q hkept, hmore, hseen⟩
    · obtain ⟨kept, more, seen', hlist, hkept, hmore, hseen⟩ :=
        ih (later ++ r.directSupertypes q) (nameKey q :: seen)
      rw [if_neg hq, List.append_assoc, hlist, List.append_assoc]
      refine ⟨q :: kept, r.directSupertypes q ++ more, seen', rfl,
        List.cons_subset_cons q hkept, ?_, ?_⟩
      · intro s hs
        cases List.mem_append.1 hs with
        | inl hs => exact ⟨q, List.mem_cons_self, hs⟩
        | inr hs =>
          obtain ⟨x, hx, hs⟩ := hmore s hs
          exact ⟨x, List.mem_cons_of_mem q hx, hs⟩
      · intro key hkey
        rw [List.map_cons, List.mem_cons]
        cases hseen key hkey with
        | inl hkey =>
          cases List.mem_cons.1 hkey with
          | inl hkey => exact .inr (.inl hkey)
          | inr hkey => exact .inl hkey
        | inr hkey => exact .inr (.inr hkey)

/-- The search when the first name of a level is at the front of the queue: what was seen and found
is nearer, and what is to come is no farther. -/
structure AtFront (r : Registry) (name : String) (k : Nat) (before : List String) (front : String)
    (rest seen : List String) : Prop where
  list : r.ancestors name = before ++ r.ancestorsFrom seen (front :: rest)
  before : ∀ x ∈ before, r.Nearer name k (nameKey x)
  seen : ∀ key ∈ seen, r.Nearer name k key
  rest : ∀ q ∈ rest, r.Nearer name (k + 1) (nameKey q)

/-- After the name at the front and all others of its level, its own first supertype is at the
front. -/
theorem AtFront.next {before rest seen others : List String} {front parent : String}
    (h : r.AtFront name k before front rest seen) (hfront : nameKey front ∉ seen)
    (hreached : r.ReachedIn name k (nameKey front))
    (hsupers : r.directSupertypes front = parent :: others) :
    ∃ before' rest' seen', r.AtFront name (k + 1) before' parent rest' seen' := by
  obtain ⟨kept, more, seen', hlist, hkept, hmore, hseen⟩ :=
    r.exists_ancestorsFrom_append rest (parent :: others) (nameKey front :: seen)
  have hnearer : r.Nearer name (k + 1) (nameKey front) := ⟨k, Nat.lt_succ_self k, hreached⟩
  have hkeptNearer : ∀ x ∈ kept, r.Nearer name (k + 1) (nameKey x) :=
    fun x hx => h.rest x (hkept hx)
  refine ⟨before ++ front :: kept, others ++ more, seen', ?_, ?_, ?_, ?_⟩
  · rw [h.list, ancestorsFrom, if_neg hfront, hsupers, hlist]
    simp
  · intro x hx
    cases List.mem_append.1 hx with
    | inl hx => exact (h.before x hx).mono (Nat.le_succ k)
    | inr hx =>
      cases List.mem_cons.1 hx with
      | inl hx => exact hx ▸ hnearer
      | inr hx => exact hkeptNearer x hx
  · intro key hkey
    cases hseen key hkey with
    | inl hkey =>
      cases List.mem_cons.1 hkey with
      | inl hkey => exact hkey ▸ hnearer
      | inr hkey => exact (h.seen key hkey).mono (Nat.le_succ k)
    | inr hkey =>
      obtain ⟨x, hx, rfl⟩ := List.mem_map.1 hkey
      exact hkeptNearer x hx
  · intro q hq
    cases List.mem_append.1 hq with
    | inl hq =>
      have hmem : q ∈ r.directSupertypes front := hsupers ▸ List.mem_cons_of_mem parent hq
      exact hnearer.step hmem
    | inr hq =>
      obtain ⟨x, hx, hq⟩ := hmore q hq
      exact (hkeptNearer x hx).step hq

/-- A class on the chain of parents that no other way reaches sooner is the first of its level. -/
theorem Inherits.exists_atFront (hr : r.WellKeyed) (hd : r.class? d.name = some d)
    (h : r.Inherits d (k + 1) p) (hfar : ¬ r.Nearer d.name (k + 1) (nameKey p.name)) :
    ∃ before front rest seen, nameKey front = nameKey p.name ∧
      r.AtFront d.name (k + 1) before front rest seen := by
  induction k generalizing p with
  | zero =>
    obtain ⟨⟩ | ⟨h, hp⟩ := h
    cases h
    obtain ⟨parent, others, hsupers, hparent⟩ := directSupertypes_eq_cons hr hd hp rfl
    have hstart : r.Nearer d.name 1 (nameKey d.name) :=
      ⟨0, Nat.zero_lt_one, reachedIn_zero_iff.2 rfl⟩
    refine ⟨[], parent, others, [nameKey d.name], hparent, ?_, by simp, ?_, ?_⟩
    · rw [ancestors, hsupers, List.nil_append]
    · intro key hkey
      exact List.mem_singleton.1 hkey ▸ hstart
    · intro q hq
      have hmem : q ∈ r.directSupertypes d.name := hsupers ▸ List.mem_cons_of_mem parent hq
      exact hstart.step hmem
  | succ k ih =>
    obtain ⟨⟩ | @⟨_, e, _, he, hp⟩ := h
    obtain ⟨parent, others, hsupers, hparent⟩ :=
      directSupertypes_eq_cons hr (he.class?_name hr hd) hp rfl
    have hmem : parent ∈ r.directSupertypes e.name := hsupers ▸ List.mem_cons_self
    have hfar' : ¬ r.Nearer d.name (k + 1) (nameKey e.name) := by
      intro hnearer
      exact hfar (hparent ▸ hnearer.step hmem)
    obtain ⟨before, front, rest, seen, hfront, hat⟩ := ih he hfar'
    have hnew : nameKey front ∉ seen := fun hin => hfar' (hfront ▸ hat.seen _ hin)
    have hsupers' : r.directSupertypes front = parent :: others := by
      rw [directSupertypes, hfront, ← directSupertypes, hsupers]
    have hreached : r.ReachedIn d.name (k + 1) (nameKey front) := by
      rw [hfront]
      exact he.reachedIn hr hd
    obtain ⟨before', rest', seen', hat'⟩ := hat.next hnew hreached hsupers'
    exact ⟨before', parent, rest', seen', hparent, hat'⟩

/-- What stands above a class-like is the class-like itself or one of its ancestors. -/
theorem standsAbove_cases (hd : r.descriptor? d.name = some d) (h : r.StandsAbove d k x) :
    x = d ∨ ∃ a ∈ r.ancestors d.name, r.descriptor? a = some x ∧
      r.ReachedIn d.name k (nameKey a) := by
  obtain ⟨b, hb, hx⟩ := h
  have hreached : r.ReachedIn d.name k (nameKey b) := ⟨b, hb, rfl⟩
  by_cases hkey : nameKey b = nameKey d.name
  · rw [r.descriptor?_congr hkey, hd] at hx
    exact .inl (Option.some.inj hx).symm
  · obtain ⟨a, ha, hab⟩ := List.mem_map.1
      ((mem_ancestors_iff r d.name _).2 ⟨hkey, exists_reachedIn_iff.1 ⟨k, hreached⟩⟩)
    rw [← hab] at hreached
    exact .inr ⟨a, ha, by rw [r.descriptor?_congr hab, hx], hreached⟩

theorem standsAbove_of_reachedIn {a : String} (hx : r.descriptor? a = some x)
    (h : r.ReachedIn d.name k (nameKey a)) : r.StandsAbove d k x := by
  obtain ⟨b, hb, hba⟩ := h
  exact ⟨b, hb, by rw [r.descriptor?_congr hba, hx]⟩

theorem Inherits.standsAbove (hr : r.WellKeyed) (hd : r.class? d.name = some d)
    (h : r.Inherits d k e) : r.StandsAbove d k e :=
  standsAbove_of_reachedIn (Hierarchy.descriptor?_of_class? (h.class?_name hr hd))
    (h.reachedIn hr hd)

end

end Registry

namespace Hierarchy

variable {r : Registry} {d : ClassDecl}

section

variable (hr : r.WellKeyed) (hcycle : ∀ d ∈ r.classes.values, ¬ r.ReachesTraitCycle d)

include hcycle in
theorem exists_gives_of_available (hd : (ofRegistry r).Available d) :
    ∃ t, Gives (r.ownMethods d) t := by
  apply Registry.exists_gives_ownMethods
  cases hd with
  | inl hd =>
    obtain ⟨n, hd⟩ := hd
    exact hcycle d (Table.mem_values_of_find? hd)
  | inr hd =>
    obtain ⟨n, hd⟩ := hd
    intro hreach
    obtain ⟨t, ⟨ref, href, _⟩, _⟩ := hreach.exists_uses
    rw [(Builtin.interface?_spec hd).1] at href
    cases href

include hr hcycle

theorem ownMethod?_eq_ownSlot? (hd : (ofRegistry r).Available d) (method : String) :
    r.ownMethod? d method = r.ownSlot? (lower method) d := by
  obtain ⟨t, ht⟩ := exists_gives_of_available hcycle hd
  rw [Registry.ownSlot?_eq ht]
  exact ownMethod?_of_available hr hd ht method

/-- A call goes to the class-like itself, or else to the first of its ancestors that has the
method. -/
theorem value_findMethod (hd : r.class? d.name = some d) (method : String) :
    ((ofRegistry r).findMethod d method).value = (r.ownSlot? (lower method) d).or
      ((r.ancestors d.name).findSome? fun a =>
        (r.descriptor? a).bind (r.ownSlot? (lower method))) := by
  have hinherited : (ofRegistry r).inheritedMethod? method (r.ancestors d.name) =
      ((r.ancestors d.name).filterMap r.descriptor?).findSome? (r.ownSlot? (lower method)) := by
    apply inheritedMethod?_eq_findSome?
    intro a ha
    obtain ⟨n, _, hn⟩ := List.mem_filterMap.1 ha
    exact ownMethod?_eq_ownSlot? hr hcycle (available_of_descriptor? hn) method
  have hown : (ofRegistry r).registry.ownMethod? d method = r.ownSlot? (lower method) d :=
    ownMethod?_eq_ownSlot? hr hcycle (.inl ⟨d.name, hd⟩) method
  rw [← List.head?_filterMap, ← List.filterMap_filterMap, List.head?_filterMap, ← hinherited, ← hown,
    findMethod]
  cases (ofRegistry r).registry.ownMethod? d method <;> rfl

theorem findMethod_eq_none_iff (hd : r.class? d.name = some d) (method : String) :
    ((ofRegistry r).findMethod d method).value = none ↔
      ∀ k x, r.StandsAbove d k x → r.ownSlot? (lower method) x = none := by
  have hself := descriptor?_of_class? hd
  rw [value_findMethod hr hcycle hd, Option.or_eq_none_iff, List.findSome?_eq_none_iff]
  constructor
  · intro h k x hx
    cases Registry.standsAbove_cases hself hx with
    | inl hxd => exact hxd ▸ h.1
    | inr hxa =>
      obtain ⟨a, ha, hdesc, _⟩ := hxa
      have hnone := h.2 a ha
      rwa [hdesc] at hnone
  · intro h
    refine ⟨h 0 d ⟨d.name, .start, hself⟩, ?_⟩
    intro a ha
    cases hdesc : r.descriptor? a with
    | none => rfl
    | some x =>
      have hreach := ((Registry.mem_ancestors_iff r d.name _).1 (List.mem_map_of_mem ha)).2
      obtain ⟨k, hk⟩ := Registry.exists_reachedIn_iff.2 hreach
      exact h k x (Registry.standsAbove_of_reachedIn hdesc hk)

/-- What a call finds is the method of a class-like than which none that has the method is
nearer. -/
theorem exists_nearest (hd : r.class? d.name = some d) {method : String} {m : Method}
    (hm : ((ofRegistry r).findMethod d method).value = some m) :
    ∃ k x, r.StandsAbove d k x ∧ r.ownSlot? (lower method) x = some m ∧
      ∀ j y, r.StandsAbove d j y → (r.ownSlot? (lower method) y).isSome → k ≤ j := by
  classical
  have hself := descriptor?_of_class? hd
  rw [value_findMethod hr hcycle hd] at hm
  cases hslot : r.ownSlot? (lower method) d with
  | some m' =>
    rw [hslot, Option.some_or] at hm
    exact ⟨0, d, ⟨d.name, .start, hself⟩, hslot.trans hm, fun j _ _ _ => Nat.zero_le j⟩
  | none =>
    rw [hslot, Option.none_or, List.findSome?_eq_some_iff] at hm
    obtain ⟨before, a, after, hlist, ha, hbefore⟩ := hm
    obtain ⟨x, hx, hxm⟩ := Option.bind_eq_some_iff.1 ha
    have hmem : a ∈ r.ancestors d.name := hlist ▸ List.mem_append_right _ List.mem_cons_self
    have hreach := ((Registry.mem_ancestors_iff r d.name _).1 (List.mem_map_of_mem hmem)).2
    have hreached := Registry.exists_reachedIn_iff.2 hreach
    refine ⟨Nat.find hreached, x, Registry.standsAbove_of_reachedIn hx (Nat.find_spec hreached),
      hxm, ?_⟩
    intro j y hy hsome
    cases Registry.standsAbove_cases hself hy with
    | inl hyd =>
      rw [hyd, hslot] at hsome
      cases hsome
    | inr hya =>
      obtain ⟨b, hb, hdesc, hj⟩ := hya
      rw [hlist] at hb
      cases List.mem_append.1 hb with
      | inl hb =>
        have hnone := hbefore b hb
        rw [hdesc, Option.bind_some] at hnone
        rw [hnone] at hsome
        cases hsome
      | inr hb =>
        cases List.mem_cons.1 hb with
        | inl hb => exact Nat.find_min' hreached (hb ▸ hj)
        | inr hb =>
          have horder := Registry.pairwise_ancestorsFrom
            ⟨1, _, _, List.append_nil _, Registry.level_start r d.name⟩
          rw [← Registry.ancestors, hlist, List.pairwise_append] at horder
          obtain ⟨i, hij, hi⟩ := (List.pairwise_cons.1 horder.2.1).1 b hb j hj
          exact Nat.le_trans (Nat.find_min' hreached hi) hij

/-- A class on the chain of parents is found first, if nothing that has the method is nearer. -/
theorem findMethod_of_none_nearer (hd : r.class? d.name = some d) {k : Nat} {p : ClassDecl}
    (hp : r.Inherits d k p) {method : String} {m : Method}
    (hm : r.ownSlot? (lower method) p = some m)
    (hnone : ∀ j y, j < k → r.StandsAbove d j y → r.ownSlot? (lower method) y = none) :
    ((ofRegistry r).findMethod d method).value = some m := by
  rw [value_findMethod hr hcycle hd]
  cases hp with
  | start => rw [hm, Option.some_or]
  | @step k e _ he hp =>
    have hself := descriptor?_of_class? ((he.step hp).class?_name hr hd)
    have hfar : ¬ r.Nearer d.name (k + 1) (nameKey p.name) := by
      intro hnear
      obtain ⟨j, hj, hreached⟩ := hnear
      rw [hnone j p hj (Registry.standsAbove_of_reachedIn hself hreached)] at hm
      cases hm
    -- the search comes to the class before all others of its level
    obtain ⟨before, front, rest, seen, hfront, hat⟩ := (he.step hp).exists_atFront hr hd hfar
    have hnew : nameKey front ∉ seen := fun hin => hfar (hfront ▸ hat.seen _ hin)
    have hbefore : before.findSome? (fun a =>
        (r.descriptor? a).bind (r.ownSlot? (lower method))) = none := by
      rw [List.findSome?_eq_none_iff]
      intro a ha
      cases hdesc : r.descriptor? a with
      | none => rfl
      | some y =>
        obtain ⟨j, hj, hreached⟩ := hat.before a ha
        exact hnone j y hj (Registry.standsAbove_of_reachedIn hdesc hreached)
    have hown : r.ownSlot? (lower method) d = none :=
      hnone 0 d (Nat.succ_pos k) ⟨d.name, .start, descriptor?_of_class? hd⟩
    rw [hown, Option.none_or, hat.list, Registry.ancestorsFrom, if_neg hnew, List.findSome?_append,
      hbefore, Option.none_or, List.findSome?_cons, r.descriptor?_congr hfront, hself,
      Option.bind_some, hm]

/-- A class on the chain of parents is what a call lands on, if nothing else that has the method is
reached in fewer steps. -/
theorem findMethod_of_inherits (hd : r.class? d.name = some d) {k : Nat} {p : ClassDecl}
    (hp : r.Inherits d k p) {method : String} {m : Method}
    (hm : r.ownSlot? (lower method) p = some m)
    (hfirst : ∀ j y, j < k → r.StandsAbove d j y → (r.ownSlot? (lower method) y).isSome → y = p) :
    ((ofRegistry r).findMethod d method).value = some m := by
  cases hfound : ((ofRegistry r).findMethod d method).value with
  | none =>
    have habove := hp.standsAbove hr hd
    rw [(findMethod_eq_none_iff hr hcycle hd method).1 hfound k p habove] at hm
    cases hm
  | some m' =>
    obtain ⟨i, x, hx, hxm, hnearest⟩ := exists_nearest hr hcycle hd hfound
    by_cases hik : i < k
    · rw [hfirst i x hik hx (by rw [hxm]; rfl), hm] at hxm
      exact hxm.symm
    · rw [← hfound]
      refine findMethod_of_none_nearer hr hcycle hd hp hm fun j y hj hy => ?_
      by_contra hsome
      have hle := hnearest j y hy (Option.isSome_iff_ne_none.2 hsome)
      omega

end

/-- Where traits do not use each other in a cycle, a call on a class finds nothing only if no
class-like that is reached from the class has the method. What it finds is the method of one of the
nearest, counted in steps over parents and interfaces alike. So it lands on the chain of parents
where nothing else that has the method is nearer. -/
theorem call_lands_on_nearest (hr : r.Indexed)
    (hcycle : ∀ d ∈ r.classes.values, ¬ r.ReachesTraitCycle d) {name : String}
    (hd : r.class? name = some d) (method : String) :
    (((ofRegistry r).findMethod d method).value = none ↔
      ∀ k x, r.StandsAbove d k x → r.ownSlot? (lower method) x = none) ∧
    (∀ m, ((ofRegistry r).findMethod d method).value = some m →
      ∃ k x, r.StandsAbove d k x ∧ r.ownSlot? (lower method) x = some m ∧
        ∀ j y, r.StandsAbove d j y → (r.ownSlot? (lower method) y).isSome → k ≤ j) ∧
    ∀ k p m, r.Inherits d k p → r.ownSlot? (lower method) p = some m →
      (∀ j y, j < k → r.StandsAbove d j y → (r.ownSlot? (lower method) y).isSome → y = p) →
      ((ofRegistry r).findMethod d method).value = some m := by
  have hwell := hr.wellKeyed
  have hself := Registry.class?_name hwell hd
  refine ⟨findMethod_eq_none_iff hwell hcycle hself method, ?_, ?_⟩
  · exact fun m hm => exists_nearest hwell hcycle hself hm
  · exact fun k p m hp hm hfirst => findMethod_of_inherits hwell hcycle hself hp hm hfirst

/-- Two classes inherit a method from the parent of their parent. The interface that announces it is
nearer to one of them, and as far from the other. -/
def announcedNearby : Registry :=
  Sample.registry [
    Sample.classLike "class_declaration" "A" [] [] [Sample.method "f" []],
    Sample.classLike "class_declaration" "B" ["A"] [] [],
    Sample.classLike "interface_declaration" "I" [] [] [Sample.announcement "f"],
    Sample.classLike "interface_declaration" "J" ["I"] [] [],
    Sample.classLike "class_declaration" "C" ["B"] ["I"] [],
    Sample.classLike "class_declaration" "D" ["B"] ["J"] []]

structure InheritsTwice (r : Registry) (name : String) (c b a : ClassDecl) (m : Method) : Prop where
  registered : r.class? name = some c
  parent : (r.parentOf c).bind r.class? = some b
  grandparent : (r.parentOf b).bind r.class? = some a
  last : r.parentOf a = none
  lacking : r.ownSlot? "f" c = none ∧ r.ownSlot? "f" b = none
  having : r.ownSlot? "f" a = some m

def inheritsTwice (r : Registry) (name full : String) : Bool :=
  (r.class? name).any fun c => ((r.parentOf c).bind r.class?).any fun b =>
    ((r.parentOf b).bind r.class?).any fun a =>
      (r.parentOf a).isNone && ((r.ownSlot? "f" c).isNone && (r.ownSlot? "f" b).isNone) &&
        (r.ownSlot? "f" a).any (·.qualifiedName == full)

theorem exists_inheritsTwice {name full : String} (h : inheritsTwice r name full = true) :
    ∃ c b a m, InheritsTwice r name c b a m ∧ m.qualifiedName = full := by
  simp only [inheritsTwice, Option.any_eq_true, Bool.and_eq_true, Option.isNone_iff_eq_none,
    beq_iff_eq] at h
  obtain ⟨c, hc, b, hb, a, ha, ⟨htop, hlacking⟩, m, hm, hname⟩ := h
  exact ⟨c, b, a, m, ⟨hc, hb, ha, htop, hlacking, hm⟩, hname⟩

theorem announcedNearby_facts :
    inheritsTwice announcedNearby "C" "A::f" = true ∧
      inheritsTwice announcedNearby "D" "A::f" = true ∧
      (announcedNearby.class? "C").all (fun c =>
        ((ofRegistry announcedNearby).findMethod c "f").value.any
          (·.qualifiedName == "I::f")) = true ∧
      (announcedNearby.class? "D").all (fun d =>
        (d.name :: announcedNearby.directSupertypes d.name).all fun a =>
          ((announcedNearby.descriptor? a).bind (announcedNearby.ownSlot? "f")).isNone) = true ∧
      (announcedNearby.classes.values.all fun d =>
        (announcedNearby.ownMethods d).run.value.toOption.isSome) = true := by
  decide +kernel

theorem announcedNearby_acyclic :
    ∀ d ∈ announcedNearby.classes.values, ¬ announcedNearby.ReachesTraitCycle d := by
  intro d hd hcycle
  have hsome := List.all_eq_true.1 announcedNearby_facts.2.2.2.2 d hd
  rw [(Registry.fails_ownMethods_iff announcedNearby d).2 hcycle] at hsome
  cases hsome

/-- The method of the class is found before that of the interface, which is two steps away too. -/
theorem call_lands_on_nearest_inherited :
    ∃ c b a m, InheritsTwice announcedNearby "D" c b a m ∧ m.qualifiedName = "A::f" ∧
      ((ofRegistry announcedNearby).findMethod c "f").value = some m := by
  obtain ⟨_, hcheck, _, hnear, _⟩ := announcedNearby_facts
  obtain ⟨c, b, a, m, h, hname⟩ := exists_inheritsTwice hcheck
  have hlower : lower "f" = "f" := by decide +kernel
  rw [h.registered, Option.all_some, List.all_eq_true] at hnear
  have hindexed : announcedNearby.Indexed := Sample.indexed_registry _
  obtain ⟨_, _, hlands⟩ := call_lands_on_nearest hindexed announcedNearby_acyclic h.registered "f"
  refine ⟨c, b, a, m, h, hname, ?_⟩
  refine hlands 2 a m ((Registry.Inherits.start.step h.parent).step h.grandparent) ?_ ?_
  · rw [hlower, h.having]
  · intro j y hj hy hsome
    obtain ⟨x, hx, hdesc⟩ := hy
    have hmem : x ∈ c.name :: announcedNearby.directSupertypes c.name := by
      cases hx with
      | start => exact List.mem_cons_self
      | step hx hstep =>
        cases hx with
        | start => exact List.mem_cons_of_mem _ hstep
        | step _ _ => omega
    have hnone := hnear x hmem
    rw [hdesc, Option.bind_some, Option.isNone_iff_eq_none] at hnone
    rw [hlower, hnone] at hsome
    cases hsome

/-- A call on a class that inherits a method stops at the interface that announces it. -/
theorem call_stops_at_interface :
    (∀ d ∈ announcedNearby.classes.values, ¬ announcedNearby.ReachesTraitCycle d) ∧
      ∃ c b a m m', InheritsTwice announcedNearby "C" c b a m ∧ m.qualifiedName = "A::f" ∧
        ((ofRegistry announcedNearby).findMethod c "f").value = some m' ∧
        m'.qualifiedName = "I::f" := by
  obtain ⟨hcheck, _, hfound, _⟩ := announcedNearby_facts
  obtain ⟨c, b, a, m, h, hname⟩ := exists_inheritsTwice hcheck
  rw [h.registered, Option.all_some, Option.any_eq_true] at hfound
  obtain ⟨m', hm', hfound⟩ := hfound
  exact ⟨announcedNearby_acyclic, c, b, a, m, m', h, hname, hm', beq_iff_eq.1 hfound⟩

end Hierarchy

end ContractCheck
