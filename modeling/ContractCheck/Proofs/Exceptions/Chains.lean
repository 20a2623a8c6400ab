import ContractCheck.Exceptions.Trace
import ContractCheck.Proofs.Table

/-!
Traces as tables of chains. Entering chains keeps a trace tidy: its exceptions differ in more than
letter case, and every exception has chains, none of them twice.
-/
namespace ContractCheck.Trace

open Text

def raised (t : Trace) : List String :=
  t.keys.map lower

def Lists (t : Trace) (exception : String) (chain : Chain) : Prop :=
  ∃ chains, (exception, chains) ∈ t.entries ∧ chain ∈ chains

structure Tidy (t : Trace) : Prop where
  raised : t.raised.Nodup
  chains : ∀ exception chains, (exception, chains) ∈ t.entries → chains ≠ [] ∧ chains.Nodup

theorem tidy_empty : Tidy {} :=
  ⟨List.nodup_nil, by simp⟩

theorem Tidy.keys {t : Trace} (ht : t.Tidy) : t.keys.Nodup :=
  List.Nodup.of_map lower ht.raised

theorem mem_raised_iff (t : Trace) (x : String) :
    x ∈ t.raised ↔ ∃ e chains, (e, chains) ∈ t.entries ∧ lower e = x := by
  simp only [raised, Table.keys, List.mem_map, Prod.exists]
  constructor
  · rintro ⟨e, ⟨a, chains, ha, rfl⟩, hx⟩
    exact ⟨a, chains, ha, hx⟩
  · rintro ⟨e, chains, he, hx⟩
    exact ⟨e, ⟨e, chains, he, rfl⟩, hx⟩

theorem lower_mem_raised {t : Trace} {e : String} {chains : List Chain}
    (h : (e, chains) ∈ t.entries) : lower e ∈ t.raised :=
  (t.mem_raised_iff _).2 ⟨e, chains, h, rfl⟩

/-- An exception that no spelling of is known comes to the end with its first chain. -/
theorem entries_add_new {t : Trace} {e : String} (h : lower e ∉ t.raised) (chain : Chain) :
    (t.add e chain).entries = t.entries ++ [(e, [chain])] := by
  have hnone : t.keys.find? (sameName · e) = none := by
    rw [List.find?_eq_none]
    intro k hk hs
    exact h (List.mem_map.2 ⟨k, hk, eq_of_beq hs⟩)
  have hmem : e ∉ t.keys := fun hk => h (List.mem_map.2 ⟨e, hk, rfl⟩)
  have hfind : t.find? e = none := (t.find?_eq_none_iff e).2 hmem
  simp [add, hnone, hfind, Table.entries_set_of_not_mem hmem]

/-- An exception of which a spelling is known gets the chain there, unless it has it already. -/
theorem entries_add_known {t : Trace} (ht : t.Tidy) {n e : String} {chains : List Chain}
    (hn : (n, chains) ∈ t.entries) (hs : lower n = lower e) (chain : Chain) :
    (t.add e chain).entries = t.entries.map fun x =>
      if x.1 = n then (n, if chains.contains chain then chains else chains ++ [chain]) else x := by
  have hk : n ∈ t.keys := List.mem_map.2 ⟨_, hn, rfl⟩
  have hfind : t.keys.find? (sameName · e) = some n := by
    cases hf : t.keys.find? (sameName · e) with
    | none =>
      have := List.find?_eq_none.1 hf n hk
      simp [sameName, hs] at this
    | some m =>
      have hm : lower m = lower e := eq_of_beq (List.find?_some (p := (sameName · e)) hf)
      have := List.inj_on_of_nodup_map ht.raised (List.mem_of_find?_eq_some hf) hk (hm.trans hs.symm)
      rw [this]
  have hchains : t.find? n = some chains := Table.find?_of_mem ht.keys hn
  simp only [add, hfind, Option.getD_some, hchains, Table.entries_set_of_mem hk]

theorem add_cases {t : Trace} (ht : t.Tidy) (e : String) (chain : Chain) :
    (lower e ∉ t.raised ∧ (t.add e chain).entries = t.entries ++ [(e, [chain])]) ∨
    ∃ n chains, (n, chains) ∈ t.entries ∧ lower n = lower e ∧
      (t.add e chain).entries = t.entries.map fun x =>
        if x.1 = n then (n, if chains.contains chain then chains else chains ++ [chain]) else x := by
  by_cases h : lower e ∈ t.raised
  · obtain ⟨n, chains, hn, hs⟩ := (t.mem_raised_iff _).1 h
    exact Or.inr ⟨n, chains, hn, hs, entries_add_known ht hn hs chain⟩
  · exact Or.inl ⟨h, entries_add_new h chain⟩

theorem raised_add_known {t u : Trace} {n : String} {chains : List Chain}
    (hu : u.entries = t.entries.map fun x => if x.1 = n then (n, chains) else x) :
    u.raised = t.raised := by
  simp only [raised, Table.keys, hu, List.map_map]
  apply List.map_congr_left
  intro x _
  by_cases hx : x.1 = n <;> simp [hx]

theorem mem_raised_add {t : Trace} (ht : t.Tidy) (e : String) (chain : Chain) (x : String) :
    x ∈ (t.add e chain).raised ↔ x ∈ t.raised ∨ x = lower e := by
  rcases add_cases ht e chain with ⟨_, he⟩ | ⟨n, chains, hn, hs, he⟩
  · simp [raised, Table.keys, he]
  · rw [raised_add_known he]
    have hx : lower e ∈ t.raised := hs ▸ lower_mem_raised hn
    constructor
    · exact Or.inl
    · rintro (h | rfl)
      · exact h
      · exact hx

theorem tidy_add {t : Trace} (ht : t.Tidy) (e : String) (chain : Chain) : (t.add e chain).Tidy := by
  rcases add_cases ht e chain with ⟨hnew, he⟩ | ⟨n, chains, hn, _, he⟩
  · have hraised : (t.add e chain).raised = t.raised ++ [lower e] := by
      simp [raised, Table.keys, he]
    refine ⟨?_, ?_⟩
    · rw [hraised, List.nodup_append]
      refine ⟨ht.raised, List.nodup_singleton _, ?_⟩
      rintro a ha b hb rfl
      exact hnew (List.mem_singleton.1 hb ▸ ha)
    · intro x cs hx
      rw [he, List.mem_append, List.mem_singleton] at hx
      rcases hx with hx | hx
      · exact ht.chains x cs hx
      · cases hx
        simp
  · refine ⟨by rw [raised_add_known he]; exact ht.raised, ?_⟩
    intro x cs hx
    rw [he, List.mem_map] at hx
    obtain ⟨y, hy, hyx⟩ := hx
    by_cases hyn : y.1 = n
    · rw [if_pos hyn] at hyx
      cases hyx
      obtain ⟨hne, hnodup⟩ := ht.chains n chains hn
      by_cases hc : chain ∈ chains
      · simpa [hc] using And.intro hne hnodup
      · have hd : List.Disjoint chains [chain] := by simpa using hc
        simpa [hc] using List.nodup_append'.2 ⟨hnodup, List.nodup_singleton _, hd⟩
    · rw [if_neg hyn] at hyx
      exact ht.chains x cs (hyx ▸ hy)

theorem lists_add {t : Trace} (ht : t.Tidy) {e k : String} {chain c : Chain}
    (h : (t.add e chain).Lists k c) : t.Lists k c ∨ (lower k = lower e ∧ c = chain) := by
  obtain ⟨cs, hk, hc⟩ := h
  rcases add_cases ht e chain with ⟨_, he⟩ | ⟨n, chains, hn, hs, he⟩
  · rw [he, List.mem_append, List.mem_singleton] at hk
    rcases hk with hk | hk
    · exact Or.inl ⟨cs, hk, hc⟩
    · cases hk
      exact Or.inr ⟨rfl, List.mem_singleton.1 hc⟩
  · rw [he, List.mem_map] at hk
    obtain ⟨y, hy, hyk⟩ := hk
    by_cases hyn : y.1 = n
    · rw [if_pos hyn] at hyk
      cases hyk
      by_cases hin : chain ∈ chains
      · exact Or.inl ⟨chains, hn, by simpa [hin] using hc⟩
      · have hor : c ∈ chains ∨ c = chain := by simpa [hin] using hc
        rcases hor with hor | hor
        · exact Or.inl ⟨chains, hn, hor⟩
        · exact Or.inr ⟨hs, hor⟩
    · rw [if_neg hyn] at hyk
      exact Or.inl ⟨cs, hyk ▸ hy, hc⟩

def addAll (t : Trace) (found : List (String × Chain)) : Trace :=
  found.foldl (fun acc p => acc.add p.1 p.2) t

theorem tidy_addAll {t : Trace} (ht : t.Tidy) (found : List (String × Chain)) :
    (t.addAll found).Tidy := by
  induction found generalizing t with
  | nil => exact ht
  | cons p found ih => exact ih (tidy_add ht p.1 p.2)

theorem mem_raised_addAll {t : Trace} (ht : t.Tidy) (found : List (String × Chain)) (x : String) :
    x ∈ (t.addAll found).raised ↔ x ∈ t.raised ∨ ∃ p ∈ found, lower p.1 = x := by
  induction found generalizing t with
  | nil => simp [addAll]
  | cons p found ih =>
    have hstep := ih (tidy_add ht p.1 p.2)
    rw [mem_raised_add ht] at hstep
    rw [show t.addAll (p :: found) = (t.add p.1 p.2).addAll found from rfl, hstep]
    simp only [List.mem_cons, exists_eq_or_imp, or_assoc, @eq_comm _ x (lower p.1)]

theorem lists_addAll {t : Trace} (ht : t.Tidy) {found : List (String × Chain)} {k : String}
    {c : Chain} (h : (t.addAll found).Lists k c) :
    t.Lists k c ∨ ∃ p ∈ found, lower k = lower p.1 ∧ c = p.2 := by
  induction found generalizing t with
  | nil => exact Or.inl h
  | cons p found ih =>
    rcases ih (tidy_add ht p.1 p.2) h with h | ⟨q, hq, hqk⟩
    · rcases lists_add ht h with h | h
      · exact Or.inl h
      · exact Or.inr ⟨p, List.mem_cons_self, h⟩
    · exact Or.inr ⟨q, List.mem_cons_of_mem p hq, hqk⟩

def listed (t : Trace) : List (String × Chain) :=
  t.entries.flatMap fun (e, chains) => chains.map fun c => (e, c)

theorem mem_listed_iff (t : Trace) (e : String) (c : Chain) : (e, c) ∈ t.listed ↔ t.Lists e c := by
  simp only [listed, Lists, List.mem_flatMap, List.mem_map, Prod.exists, Prod.mk.injEq]
  constructor
  · rintro ⟨e', chains, hm, c', hc, rfl, rfl⟩
    exact ⟨chains, hm, hc⟩
  · rintro ⟨chains, hm, hc⟩
    exact ⟨e, chains, hm, c, hc, rfl, rfl⟩

theorem addCallee_eq (t : Trace) (caller : String) (callee : Trace) :
    t.addCallee caller callee = t.addAll (callee.listed.map fun p => (p.1, caller :: p.2)) := by
  simp only [addCallee, addAll, listed, List.foldl_map, List.foldl_flatMap]

theorem tidy_addCallee {t : Trace} (ht : t.Tidy) (caller : String) (callee : Trace) :
    (t.addCallee caller callee).Tidy := by
  rw [addCallee_eq]
  exact tidy_addAll ht _

/-- A callee hands all its exceptions to the caller. -/
theorem mem_raised_addCallee {t callee : Trace} (ht : t.Tidy) (hc : callee.Tidy) (caller : String)
    (x : String) : x ∈ (t.addCallee caller callee).raised ↔ x ∈ t.raised ∨ x ∈ callee.raised := by
  rw [addCallee_eq, mem_raised_addAll ht]
  apply or_congr_right
  constructor
  · rintro ⟨p, hp, rfl⟩
    obtain ⟨⟨e, c⟩, hq, rfl⟩ := List.mem_map.1 hp
    obtain ⟨chains, hm, _⟩ := (callee.mem_listed_iff e c).1 hq
    exact lower_mem_raised hm
  · intro hx
    obtain ⟨e, chains, hm, rfl⟩ := (callee.mem_raised_iff x).1 hx
    obtain ⟨c, hin⟩ := List.exists_mem_of_ne_nil chains (hc.chains e chains hm).1
    have hl : (e, c) ∈ callee.listed := (callee.mem_listed_iff e c).2 ⟨chains, hm, hin⟩
    exact ⟨(e, caller :: c), List.mem_map.2 ⟨(e, c), hl, rfl⟩, rfl⟩

/-- A chain after a callee's trace was entered is an old one, or one of the callee led by the
caller. -/
theorem lists_addCallee {t callee : Trace} (ht : t.Tidy) {caller k : String} {c : Chain}
    (h : (t.addCallee caller callee).Lists k c) :
    t.Lists k c ∨ ∃ e c', callee.Lists e c' ∧ lower k = lower e ∧ c = caller :: c' := by
  rw [addCallee_eq] at h
  rcases lists_addAll ht h with h | ⟨p, hp, hk, rfl⟩
  · exact Or.inl h
  · obtain ⟨⟨e, c'⟩, hq, rfl⟩ := List.mem_map.1 hp
    exact Or.inr ⟨e, c', (callee.mem_listed_iff e c').1 hq, hk, rfl⟩

end ContractCheck.Trace
