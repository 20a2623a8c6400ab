import ContractCheck.Hierarchy.Resolution
import ContractCheck.Hierarchy.Unseen

/-!
All names from which a class-like descends, nearest first. Cycles end at the first repetition.
-/
namespace ContractCheck.Registry

open Text (nameKey)

def knownKeys (r : Registry) : List String :=
  r.classes.keys ++ Builtin.known.map (·.1)

theorem mem_keys_of_find? {α : Type} {t : Table String α} {k : String} {v : α}
    (h : t.find? k = some v) : k ∈ t.keys := by
  simp only [Table.find?, Option.map_eq_some_iff] at h
  obtain ⟨e, he, _⟩ := h
  have hm := List.mem_of_find?_eq_some he
  have hk := List.find?_some he
  simp only [decide_eq_true_eq] at hk
  exact List.mem_map.2 ⟨e, hm, hk⟩

theorem mem_map_fst_of_lookup {α : Type} {k : String} {v : α} {l : List (String × α)}
    (h : l.lookup k = some v) : k ∈ l.map (·.1) := by
  obtain ⟨before, after, rfl, _⟩ := List.lookup_eq_some_iff.1 h
  simp

/-- A key that is not known has no supertypes. -/
theorem supertypesOfKey_eq_nil {r : Registry} {key : String} (h : key ∉ r.knownKeys) :
    r.supertypesOfKey key = [] := by
  simp only [knownKeys, List.mem_append, not_or] at h
  have hc : r.classes.find? key = none := by
    cases hd : r.classes.find? key with
    | none => rfl
    | some d => exact absurd (mem_keys_of_find? hd) h.1
  have hb : Builtin.known.lookup key = none := by
    cases he : Builtin.known.lookup key with
    | none => rfl
    | some e => exact absurd (mem_map_fst_of_lookup he) h.2
  simp [supertypesOfKey, hc, Builtin.supertypesOfKey, hb]

def pending (r : Registry) (seen : List String) : Nat :=
  unseen (fun k => (r.supertypesOfKey k).length) seen r.knownKeys

theorem pending_cons_le (r : Registry) {seen : List String} {key : String} (hs : key ∉ seen) :
    r.pending (key :: seen) + (r.supertypesOfKey key).length ≤ r.pending seen := by
  by_cases hk : key ∈ r.knownKeys
  · exact unseen_cons_add_le hk hs
  · have hle := unseen_cons_le (fun k => (r.supertypesOfKey k).length) key seen r.knownKeys
    simpa [pending, supertypesOfKey_eq_nil hk] using hle

/-- Works off a queue of names: a name whose key was not seen is kept, and its supertypes join the
end of the queue. -/
def ancestorsFrom (r : Registry) (seen : List String) : List String → List String
  | [] => []
  | name :: queue =>
    if nameKey name ∈ seen then r.ancestorsFrom seen queue
    else name :: r.ancestorsFrom (nameKey name :: seen) (queue ++ r.directSupertypes name)
termination_by queue => r.pending seen + queue.length
decreasing_by
  · simp
  · have h := r.pending_cons_le ‹_›
    simp only [directSupertypes, List.length_append, List.length_cons]
    omega

def ancestors (r : Registry) (name : String) : List String :=
  r.ancestorsFrom [nameKey name] (r.directSupertypes name)

end ContractCheck.Registry
