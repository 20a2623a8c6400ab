import ContractCheck.Proofs.Hierarchy.Resolution
import ContractCheck.Proofs.Sample
import Mathlib.Data.Nat.Find
import Mathlib.Logic.Function.Iterate
import Mathlib.Order.Bounds.Defs

/-!
How far away the supertypes of a name are. The search for ancestors works off one level after the
other: what is one step away, then what is two steps away, and so on. Main statement: it ends, gives
all names that can be reached and each of them once, and gives none before a nearer one.
-/
namespace ContractCheck

open Text

namespace Registry

inductive Climbs (r : Registry) (name : String) : Nat → String → Prop
  | start : r.Climbs name 0 name
  | step {k : Nat} {a b : String} (h : r.Climbs name k a) (hb : b ∈ r.directSupertypes a) :
      r.Climbs name (k + 1) b

def IsDistance (r : Registry) (name a : String) (k : Nat) : Prop :=
  IsLeast {k | ∃ b, r.Climbs name k b ∧ lower b = lower a} k

def ReachedIn (r : Registry) (name : String) (k : Nat) (key : String) : Prop :=
  ∃ a, r.Climbs name k a ∧ nameKey a = key

section

variable {r : Registry} {name key : String} {k : Nat}

theorem reachedIn_zero_iff : r.ReachedIn name 0 key ↔ key = nameKey name := by
  constructor
  · intro h
    obtain ⟨a, ha, rfl⟩ := h
    cases ha
    rfl
  · intro h
    exact ⟨name, .start, h.symm⟩

/-- The last step leads to a direct supertype of what was reached before it. -/
theorem reachedIn_succ_iff :
    r.ReachedIn name (k + 1) key ↔ ∃ key', r.ReachedIn name k key' ∧ r.Extends key' key := by
  constructor
  · intro h
    obtain ⟨b, hb, rfl⟩ := h
    cases hb with
    | @step _ a _ ha hstep => exact ⟨nameKey a, ⟨a, ha, rfl⟩, b, hstep, rfl⟩
  · intro h
    obtain ⟨key', ⟨a, ha, rfl⟩, b, hb, rfl⟩ := h
    exact ⟨b, .step ha hb, rfl⟩

theorem exists_reachedIn_iff :
    (∃ k, r.ReachedIn name k key) ↔ Relation.ReflTransGen r.Extends (nameKey name) key := by
  constructor
  · intro h
    obtain ⟨k, h⟩ := h
    induction k generalizing key with
    | zero => exact reachedIn_zero_iff.1 h ▸ .refl
    | succ k ih =>
      obtain ⟨key', hkey', hstep⟩ := reachedIn_succ_iff.1 h
      exact (ih hkey').tail hstep
  · intro h
    induction h with
    | refl => exact ⟨0, reachedIn_zero_iff.2 rfl⟩
    | tail _ hstep ih =>
      obtain ⟨k, hk⟩ := ih
      exact ⟨k + 1, reachedIn_succ_iff.2 ⟨_, hk, hstep⟩⟩

end

/-- A search in the midst of a level. The names to come are of this level or, after these, of the
next one. All keys of nearer levels were seen, those of this level were seen or are to come, and so
are the supertypes of what was seen. -/
structure Level (r : Registry) (name : String) (k : Nat) (seen now next : List String) : Prop where
  reached : ∀ q ∈ now, r.ReachedIn name k (nameKey q)
  beyond : ∀ q ∈ next, r.ReachedIn name (k + 1) (nameKey q)
  nearer : ∀ j < k, ∀ key, r.ReachedIn name j key → key ∈ seen
  here : ∀ key, r.ReachedIn name k key → key ∈ seen ∨ key ∈ now.map nameKey
  closed : ∀ key ∈ seen, ∀ s ∈ r.supertypesOfKey key,
    nameKey s ∈ seen ∨ nameKey s ∈ (now ++ next).map nameKey

section

variable {r : Registry} {name q : String} {k : Nat} {seen now next : List String}

theorem level_start (r : Registry) (name : String) :
    r.Level name 1 [nameKey name] (r.directSupertypes name) [] := by
  refine ⟨?_, by simp, ?_, ?_, ?_⟩
  · intro q hq
    exact ⟨q, .step .start hq, rfl⟩
  · intro j hj key hkey
    obtain rfl : j = 0 := by omega
    rw [reachedIn_zero_iff.1 hkey]
    exact List.mem_cons_self
  · intro key hkey
    obtain ⟨key', hkey', s, hs, rfl⟩ := reachedIn_succ_iff.1 hkey
    rw [reachedIn_zero_iff.1 hkey'] at hs
    exact .inr (List.mem_map_of_mem hs)
  · intro key hkey s hs
    rw [List.mem_singleton.1 hkey] at hs
    rw [List.append_nil]
    exact .inr (List.mem_map_of_mem hs)

/-- Once a level is worked off, the next one begins. -/
theorem Level.shift (h : r.Level name k seen [] next) : r.Level name (k + 1) seen next [] := by
  have hlevel : ∀ key, r.ReachedIn name k key → key ∈ seen := by
    intro key hkey
    simpa using h.here key hkey
  refine ⟨h.beyond, by simp, ?_, ?_, ?_⟩
  · intro j hj key hkey
    by_cases hjk : j < k
    · exact h.nearer j hjk key hkey
    · obtain rfl : j = k := by omega
      exact hlevel key hkey
  · intro key hkey
    obtain ⟨key', hkey', s, hs, rfl⟩ := reachedIn_succ_iff.1 hkey
    exact h.closed key' (hlevel key' hkey') s hs
  · rw [List.append_nil]
    exact h.closed

theorem Level.exists_cons {queue : List String} (h : r.Level name k seen now next)
    (hqueue : now ++ next = q :: queue) :
    ∃ k now next, now ++ next = queue ∧ r.Level name k seen (q :: now) next := by
  cases now with
  | nil =>
    obtain rfl : next = q :: queue := hqueue
    exact ⟨k + 1, queue, [], List.append_nil queue, h.shift⟩
  | cons q' now =>
    obtain ⟨rfl, rfl⟩ := List.cons.inj hqueue
    exact ⟨k, now, next, rfl, h⟩

theorem Level.skip (h : r.Level name k seen (q :: now) next) (hq : nameKey q ∈ seen) :
    r.Level name k seen now next := by
  have hdrop : ∀ {key : String} {l : List String},
      key ∈ seen ∨ key ∈ (q :: l).map nameKey → key ∈ seen ∨ key ∈ l.map nameKey := by
    intro key l hkey
    rw [List.map_cons, List.mem_cons] at hkey
    cases hkey with
    | inl hkey => exact .inl hkey
    | inr hkey =>
      cases hkey with
      | inl hkey => exact .inl (hkey ▸ hq)
      | inr hkey => exact .inr hkey
  refine ⟨fun x hx => h.reached x (List.mem_cons_of_mem q hx), h.beyond, h.nearer, ?_, ?_⟩
  · exact fun key hkey => hdrop (h.here key hkey)
  · exact fun key hkey s hs => hdrop (h.closed key hkey s hs)

theorem Level.keep (h : r.Level name k seen (q :: now) next) :
    r.Level name k (nameKey q :: seen) now (next ++ r.directSupertypes q) := by
  have hmove : ∀ {key : String} {l l' : List String}, l ⊆ l' →
      key ∈ seen ∨ key ∈ (q :: l).map nameKey →
        key ∈ nameKey q :: seen ∨ key ∈ l'.map nameKey := by
    intro key l l' hl hkey
    rw [List.map_cons, List.mem_cons] at hkey
    cases hkey with
    | inl hkey => exact .inl (List.mem_cons_of_mem _ hkey)
    | inr hkey =>
      cases hkey with
      | inl hkey => exact .inl (hkey ▸ List.mem_cons_self)
      | inr hkey => exact .inr (List.map_subset nameKey hl hkey)
  refine ⟨fun x hx => h.reached x (List.mem_cons_of_mem q hx), ?_, ?_, ?_, ?_⟩
  · intro x hx
    cases List.mem_append.1 hx with
    | inl hx => exact h.beyond x hx
    | inr hx => exact reachedIn_succ_iff.2 ⟨_, h.reached q List.mem_cons_self, x, hx, rfl⟩
  · intro j hj key hkey
    exact List.mem_cons_of_mem _ (h.nearer j hj key hkey)
  · exact fun key hkey => hmove (List.Subset.refl now) (h.here key hkey)
  · intro key hkey s hs
    rw [← List.append_assoc]
    cases List.mem_cons.1 hkey with
    | inl hkey =>
      subst hkey
      exact .inr (List.mem_map_of_mem (List.mem_append_right _ hs))
    | inr hkey => exact hmove (List.subset_append_left _ _) (h.closed key hkey s hs)

end

/-- From a place in the midst of a level, nothing is found before what is nearer. -/
theorem pairwise_ancestorsFrom {r : Registry} {name : String} {seen queue : List String}
    (h : ∃ k now next, now ++ next = queue ∧ r.Level name k seen now next) :
    (r.ancestorsFrom seen queue).Pairwise fun a b =>
      ∀ j, r.ReachedIn name j (nameKey b) → ∃ i ≤ j, r.ReachedIn name i (nameKey a) := by
  fun_induction ancestorsFrom r seen queue with
  | case1 => exact .nil
  | case2 seen q queue hq ih =>
    obtain ⟨_, _, _, hqueue, h⟩ := h
    obtain ⟨k, now, next, hrest, h⟩ := h.exists_cons hqueue
    exact ih ⟨k, now, next, hrest, h.skip hq⟩
  | case3 seen q queue hq ih =>
    obtain ⟨_, _, _, hqueue, h⟩ := h
    obtain ⟨k, now, next, hrest, h⟩ := h.exists_cons hqueue
    refine .cons ?_ (ih ⟨k, now, next ++ r.directSupertypes q, ?_, h.keep⟩)
    · intro b hb j hj
      -- what is found later was not seen, so it is not of a nearer level
      have hnew := (sound_ancestorsFrom hb).1
      refine ⟨k, ?_, h.reached q List.mem_cons_self⟩
      by_contra hlt
      exact hnew (List.mem_cons_of_mem _ (h.nearer j (by omega) _ hj))
    · rw [← List.append_assoc, hrest]

structure Search where
  queue : List String
  seen : List String
  found : List String

namespace Search

def start (r : Registry) (name : String) : Search :=
  ⟨r.directSupertypes name, [nameKey name], []⟩

def step (r : Registry) (s : Search) : Search :=
  s.queue.head?.elim s fun name =>
    if nameKey name ∈ s.seen then { s with queue := s.queue.tail }
    else ⟨s.queue.tail ++ r.directSupertypes name, nameKey name :: s.seen, s.found ++ [name]⟩

/-- Each round takes a name off the queue, and a key adds to the queue only once; so the rounds that
these allow for are enough to empty it. -/
theorem iterate_step {r : Registry} {seen queue : List String} (found : List String) {rounds : Nat}
    (h : r.pending seen + queue.length ≤ rounds) :
    ((step r)^[rounds] ⟨queue, seen, found⟩).queue = [] ∧
      ((step r)^[rounds] ⟨queue, seen, found⟩).found = found ++ r.ancestorsFrom seen queue := by
  fun_induction ancestorsFrom r seen queue generalizing found rounds with
  | case1 seen =>
    have hdone : (step r)^[rounds] ⟨[], seen, found⟩ = ⟨[], seen, found⟩ :=
      Function.iterate_fixed rfl rounds
    rw [hdone]
    exact ⟨rfl, (List.append_nil found).symm⟩
  | case2 seen q queue hq ih =>
    rw [List.length_cons] at h
    obtain ⟨rounds, rfl⟩ : ∃ n, rounds = n + 1 := ⟨rounds - 1, by omega⟩
    have hstep : step r ⟨q :: queue, seen, found⟩ = ⟨queue, seen, found⟩ := by simp [step, hq]
    rw [Function.iterate_succ_apply, hstep]
    exact ih found (by omega)
  | case3 seen q queue hq ih =>
    rw [List.length_cons] at h
    obtain ⟨rounds, rfl⟩ : ∃ n, rounds = n + 1 := ⟨rounds - 1, by omega⟩
    have hstep : step r ⟨q :: queue, seen, found⟩ =
        ⟨queue ++ r.directSupertypes q, nameKey q :: seen, found ++ [q]⟩ := by simp [step, hq]
    have hless := r.pending_cons_le hq
    have hlength : (queue ++ r.directSupertypes q).length =
        queue.length + (r.supertypesOfKey (nameKey q)).length := List.length_append
    have hbound : r.pending (nameKey q :: seen) + (queue ++ r.directSupertypes q).length ≤ rounds := by
      omega
    rw [Function.iterate_succ_apply, hstep, List.append_cons found q (r.ancestorsFrom _ _)]
    exact ih (found ++ [q]) hbound

end Search

section

variable {r : Registry} {name a : String} {k : Nat}

theorem unslashed_of_climbs (hr : r.WellKeyed) (hname : Unslashed name) (h : r.Climbs name k a) :
    Unslashed a := by
  cases h with
  | start => exact hname
  | step _ ha => exact unslashed_of_mem_directSupertypes hr ha

/-- On full names, keys are lower-cased names. -/
theorem reachedIn_lower_iff (hr : r.WellKeyed) (hname : Unslashed name) :
    r.ReachedIn name k (lower a) ↔ ∃ b, r.Climbs name k b ∧ lower b = lower a := by
  apply exists_congr
  intro b
  apply and_congr_right
  intro hb
  rw [nameKey_of_unslashed (unslashed_of_climbs hr hname hb)]

theorem exists_isDistance (h : ∃ k b, r.Climbs name k b ∧ lower b = lower a) :
    ∃ k, r.IsDistance name a k := by
  classical
  exact ⟨Nat.find h, Nat.find_spec h, fun j hj => Nat.find_min' h hj⟩

theorem mem_ancestors_iff_climbs (hr : r.WellKeyed) (hname : Unslashed name) (a : String) :
    (∃ b ∈ r.ancestors name, lower b = lower a) ↔
      lower a ≠ lower name ∧ ∃ k b, 0 < k ∧ r.Climbs name k b ∧ lower b = lower a := by
  rw [exists_mem_ancestors_iff hr, ← exists_reachedIn_iff, nameKey_of_unslashed hname]
  apply and_congr_right
  intro hne
  simp only [reachedIn_lower_iff hr hname]
  apply exists_congr
  intro k
  constructor
  · intro h
    obtain ⟨b, hb, hab⟩ := h
    refine ⟨b, ?_, hb, hab⟩
    cases hb with
    | start => exact absurd hab.symm hne
    | step _ _ => exact Nat.succ_pos _
  · intro h
    obtain ⟨b, _, hb, hab⟩ := h
    exact ⟨b, hb, hab⟩

theorem pairwise_ancestors (hr : r.WellKeyed) (hname : Unslashed name) :
    (r.ancestors name).Pairwise fun a b =>
      ∀ i j, r.IsDistance name a i → r.IsDistance name b j → i ≤ j := by
  have horder := pairwise_ancestorsFrom ⟨1, _, _, List.append_nil _, level_start r name⟩
  refine List.Pairwise.imp_of_mem ?_ horder
  intro a b ha hb hab i j hi hj
  have hlower : ∀ {x : String}, x ∈ r.ancestors name → nameKey x = lower x :=
    fun hx => nameKey_of_unslashed (unslashed_of_mem_ancestors hr hx)
  rw [hlower ha, hlower hb] at hab
  obtain ⟨i', hle, hi'⟩ := hab j ((reachedIn_lower_iff hr hname).2 hj.1)
  exact Nat.le_trans (hi.2 ((reachedIn_lower_iff hr hname).1 hi')) hle

end

end Registry

namespace Hierarchy

theorem isDescendant_trans {r : Registry} (hr : r.WellKeyed) {a b c : String} (ha : Unslashed a)
    (hb : Unslashed b) (hab : ((ofRegistry r).isDescendant a b).value = true)
    (hbc : ((ofRegistry r).isDescendant b c).value = true) :
    ((ofRegistry r).isDescendant a c).value = true := by
  rw [isDescendant_iff hr ha] at hab ⊢
  rw [isDescendant_iff hr hb] at hbc
  exact hab.trans hbc

end Hierarchy

namespace Registry

open Hierarchy

/-- The search for the ancestors of a full name ends, and gives the names that are reached from it
over direct supertypes, apart from itself. Letter case aside it gives none of them twice, and nearer
ones come first. So descent is reflexive and transitive. -/
theorem ancestors_breadth_first {r : Registry} (hr : r.Indexed) {name : String}
    (hname : Unslashed name) :
    (∀ rounds, r.pending [lower name] + (r.directSupertypes name).length ≤ rounds →
      ((Search.step r)^[rounds] (Search.start r name)).queue = [] ∧
      ((Search.step r)^[rounds] (Search.start r name)).found = r.ancestors name) ∧
    ((r.ancestors name).map lower).Nodup ∧
    (∀ a, (∃ b ∈ r.ancestors name, lower b = lower a) ↔
      lower a ≠ lower name ∧ ∃ k b, 0 < k ∧ r.Climbs name k b ∧ lower b = lower a) ∧
    (∀ a ∈ r.ancestors name, ∃ k, r.IsDistance name a k) ∧
    (r.ancestors name).Pairwise (fun a b =>
      ∀ i j, r.IsDistance name a i → r.IsDistance name b j → i ≤ j) ∧
    (∀ a, ((ofRegistry r).isDescendant a a).value = true) ∧
    ∀ a b c, Unslashed a → Unslashed b → ((ofRegistry r).isDescendant a b).value = true →
      ((ofRegistry r).isDescendant b c).value = true →
      ((ofRegistry r).isDescendant a c).value = true := by
  have hwell := hr.wellKeyed
  refine ⟨?_, ?_, mem_ancestors_iff_climbs hwell hname, ?_, pairwise_ancestors hwell hname, ?_, ?_⟩
  · intro rounds hrounds
    rw [← nameKey_of_unslashed hname] at hrounds
    exact Search.iterate_step [] hrounds
  · have hlower : (r.ancestors name).map lower = (r.ancestors name).map nameKey :=
      List.map_congr_left fun a ha =>
        (nameKey_of_unslashed (unslashed_of_mem_ancestors hwell ha)).symm
    rw [hlower]
    exact r.nodup_ancestors name
  · intro a ha
    obtain ⟨_, k, b, _, hb, hab⟩ := (mem_ancestors_iff_climbs hwell hname a).1 ⟨a, ha, rfl⟩
    exact exists_isDistance ⟨k, b, hb, hab⟩
  · intro a
    exact (isDescendant_iff_exists _ a a).2 (.inl rfl)
  · exact fun a b c ha hb => isDescendant_trans hwell ha hb

def extendedRound : Registry :=
  Sample.registry [
    Sample.classLike "class_declaration" "A" ["Exception"] ["I"] [],
    Sample.classLike "class_declaration" "Exception" ["B"] [] [],
    Sample.classLike "class_declaration" "B" ["a"] ["Countable"] [],
    Sample.classLike "interface_declaration" "I" ["J"] [] [],
    Sample.classLike "interface_declaration" "J" [] [] []]

/-- The way round is cut off where it comes back to the start. -/
theorem ancestors_breadth_first_round :
    extendedRound.ancestors "A" = ["Exception", "I", "B", "J", "Countable"] ∧
      ((Search.step extendedRound)^[200] (Search.start extendedRound "A")).queue = [] ∧
      (∃ k b, 0 < k ∧ extendedRound.Climbs "A" k b ∧ lower b = lower "COUNTABLE") ∧
      ["Exception", "I", "B", "J", "Countable"].Pairwise fun a b => ∀ i j,
        extendedRound.IsDistance "A" a i → extendedRound.IsDistance "A" b j → i ≤ j := by
  have hname : Unslashed "A" := by decide +kernel
  -- one evaluation of the registry serves both facts
  have hfacts : extendedRound.pending [lower "A"] +
        (extendedRound.directSupertypes "A").length ≤ 200 ∧
      extendedRound.ancestors "A" = ["Exception", "I", "B", "J", "Countable"] := by
    decide +kernel
  obtain ⟨hbound, hlist⟩ := hfacts
  have hcase : lower "Countable" = lower "COUNTABLE" := by decide +kernel
  have hindexed : extendedRound.Indexed := Sample.indexed_registry _
  obtain ⟨hends, _, hmem, _, horder, _⟩ := ancestors_breadth_first hindexed hname
  rw [hlist] at hmem horder
  exact ⟨hlist, (hends 200 hbound).1, ((hmem "COUNTABLE").1 ⟨"Countable", by simp, hcase⟩).2, horder⟩

end Registry

end ContractCheck
