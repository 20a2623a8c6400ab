import ContractCheck.Hierarchy.Ancestors
import Mathlib.Data.List.Nodup

/-!
What looking up finds after keys were entered. A table whose keys were entered as new ones holds
each key once, so that its entries and its look-ups say the same.
-/
namespace ContractCheck.Table

variable {κ α : Type} [DecidableEq κ]

theorem mem_entries_of_find? {t : Table κ α} {k : κ} {v : α} (h : t.find? k = some v) :
    (k, v) ∈ t.entries := by
  simp only [find?, Option.map_eq_some_iff] at h
  obtain ⟨e, he, rfl⟩ := h
  have hk := List.find?_some he
  simp only [decide_eq_true_eq] at hk
  subst hk
  exact List.mem_of_find?_eq_some he

theorem find?_of_mem {t : Table κ α} (hn : t.keys.Nodup) {k : κ} {v : α}
    (h : (k, v) ∈ t.entries) : t.find? k = some v := by
  obtain ⟨entries⟩ := t
  simp only [find?, keys] at *
  induction entries with
  | nil => simp at h
  | cons e rest ih =>
    rw [List.map_cons, List.nodup_cons] at hn
    rcases List.mem_cons.1 h with rfl | h
    · simp
    · have hne : e.1 ≠ k := by
        rintro rfl
        exact hn.1 (List.mem_map.2 ⟨_, h, rfl⟩)
      simpa [hne] using ih hn.2 h

theorem contains_iff_mem_keys (t : Table κ α) (k : κ) : t.contains k = true ↔ k ∈ t.keys := by
  simp only [contains, find?, keys, Option.isSome_map, List.find?_isSome, decide_eq_true_eq,
    List.mem_map]

theorem find?_eq_none_iff (t : Table κ α) (k : κ) : t.find? k = none ↔ k ∉ t.keys := by
  rw [← contains_iff_mem_keys, contains]
  cases t.find? k <;> simp

theorem mem_values_iff {κ α : Type} (t : Table κ α) (v : α) : v ∈ t.values ↔ ∃ k, (k, v) ∈ t.entries := by
  simp [values]

theorem mem_values_of_find? {t : Table κ α} {k : κ} {v : α} (h : t.find? k = some v) :
    v ∈ t.values :=
  (t.mem_values_iff v).2 ⟨k, mem_entries_of_find? h⟩

theorem insertNew_of_mem {t : Table κ α} {k : κ} (h : k ∈ t.keys) (v : α) :
    t.insertNew k v = t := by
  rw [insertNew, if_pos ((t.contains_iff_mem_keys k).2 h)]

theorem entries_insertNew {t : Table κ α} {k : κ} (h : k ∉ t.keys) (v : α) :
    (t.insertNew k v).entries = t.entries ++ [(k, v)] := by
  rw [insertNew, if_neg (mt (t.contains_iff_mem_keys k).1 h)]

theorem keys_insertNew {t : Table κ α} {k : κ} (h : k ∉ t.keys) (v : α) :
    (t.insertNew k v).keys = t.keys ++ [k] := by
  simp [keys, entries_insertNew h]

theorem mem_keys_insertNew (t : Table κ α) (k k' : κ) (v : α) :
    k' ∈ (t.insertNew k v).keys ↔ k' ∈ t.keys ∨ k' = k := by
  by_cases h : k ∈ t.keys
  · rw [insertNew_of_mem h]
    constructor
    · exact Or.inl
    · rintro (h' | rfl)
      · exact h'
      · exact h
  · simp [keys_insertNew h]

theorem nodup_keys_insertNew {t : Table κ α} (hn : t.keys.Nodup) (k : κ) (v : α) :
    (t.insertNew k v).keys.Nodup := by
  by_cases h : k ∈ t.keys
  · rwa [insertNew_of_mem h]
  · rw [keys_insertNew h, List.nodup_append]
    refine ⟨hn, List.nodup_singleton k, ?_⟩
    rintro a ha b hb rfl
    exact h (List.mem_singleton.1 hb ▸ ha)

theorem find?_insertNew_of_some {t : Table κ α} {k' : κ} {w : α} (h : t.find? k' = some w)
    (k : κ) (v : α) : (t.insertNew k v).find? k' = some w := by
  by_cases hk : k ∈ t.keys
  · rwa [insertNew_of_mem hk]
  · simp only [find?, Option.map_eq_some_iff] at h ⊢
    obtain ⟨e, he, rfl⟩ := h
    exact ⟨e, by rw [entries_insertNew hk, List.find?_append, he]; rfl, rfl⟩

theorem find?_insertNew_self {t : Table κ α} {k : κ} (h : k ∉ t.keys) (v : α) :
    (t.insertNew k v).find? k = some v := by
  have hf : t.entries.find? (·.1 = k) = none := by
    simpa [find?] using (t.find?_eq_none_iff k).2 h
  simp [find?, entries_insertNew h, List.find?_append, hf]

theorem find?_insertNew_of_ne {t : Table κ α} {k k' : κ} (h : k ≠ k') (v : α) :
    (t.insertNew k v).find? k' = t.find? k' := by
  by_cases hk : k ∈ t.keys
  · rw [insertNew_of_mem hk]
  · simp [find?, entries_insertNew hk, List.find?_append, h]

theorem find?_cons (e : κ × α) (es : List (κ × α)) (k : κ) :
    (⟨e :: es⟩ : Table κ α).find? k = if e.1 = k then some e.2 else (⟨es⟩ : Table κ α).find? k := by
  by_cases h : e.1 = k <;> simp [find?, h]

theorem find?_insertNew (t : Table κ α) (k k' : κ) (v : α) :
    (t.insertNew k v).find? k' = (t.find? k').or (if k = k' then some v else none) := by
  cases hf : t.find? k' with
  | some w => rw [find?_insertNew_of_some hf, Option.some_or]
  | none =>
    by_cases hk : k = k'
    · subst hk
      rw [find?_insertNew_self ((t.find?_eq_none_iff k).1 hf), if_pos rfl, Option.none_or]
    · rw [find?_insertNew_of_ne hk, hf, if_neg hk, Option.none_or]

/-- What a table does not have, the second one adds. -/
theorem find?_addMissing (t u : Table κ α) (k : κ) :
    (t.addMissing u).find? k = (t.find? k).or (u.find? k) := by
  obtain ⟨es⟩ := u
  rw [addMissing]
  induction es generalizing t with
  | nil => rw [show (⟨[]⟩ : Table κ α).find? k = none from rfl, Option.or_none]; rfl
  | cons e es ih =>
    rw [List.foldl_cons, ih, find?_insertNew, find?_cons, Option.or_assoc]
    by_cases hk : e.1 = k
    · rw [if_pos hk, if_pos hk, Option.some_or]
    · rw [if_neg hk, if_neg hk, Option.none_or]

theorem entries_set_of_mem {t : Table κ α} {k : κ} (h : k ∈ t.keys) (v : α) :
    (t.set k v).entries = t.entries.map fun e => if e.1 = k then (k, v) else e := by
  rw [set, if_pos ((t.contains_iff_mem_keys k).2 h)]

theorem entries_set_of_not_mem {t : Table κ α} {k : κ} (h : k ∉ t.keys) (v : α) :
    (t.set k v).entries = t.entries ++ [(k, v)] := by
  rw [set, if_neg (mt (t.contains_iff_mem_keys k).1 h)]

theorem find?_set_self (t : Table κ α) (k : κ) (v : α) : (t.set k v).find? k = some v := by
  by_cases hk : k ∈ t.keys
  · have hentries : ∀ es : List (κ × α), k ∈ es.map (·.1) →
        ((es.map fun e => if e.1 = k then (k, v) else e).find? (·.1 = k)) = some (k, v) := by
      intro es hes
      induction es with
      | nil => simp at hes
      | cons e es ih =>
        by_cases he : e.1 = k
        · simp [he]
        · have hrest : k ∈ es.map (·.1) := by simpa [Ne.symm he] using hes
          rw [List.map_cons, if_neg he, List.find?_cons_of_neg (by simpa using he), ih hrest]
    rw [find?, entries_set_of_mem hk, hentries _ hk]
    rfl
  · have hf : t.entries.find? (·.1 = k) = none := by
      simpa [find?] using (t.find?_eq_none_iff k).2 hk
    simp [find?, entries_set_of_not_mem hk, List.find?_append, hf]

theorem find?_set_of_ne {k k' : κ} (h : k ≠ k') (t : Table κ α) (v : α) :
    (t.set k v).find? k' = t.find? k' := by
  by_cases hk : k ∈ t.keys
  · have hentries : ∀ es : List (κ × α), ((es.map fun e => if e.1 = k then (k, v) else e).find?
        (·.1 = k')) = es.find? (·.1 = k') := by
      intro es
      induction es with
      | nil => rfl
      | cons e es ih =>
        by_cases he : e.1 = k
        · simp [he, h, ih]
        · simp [he, List.find?_cons, ih]
    rw [find?, entries_set_of_mem hk, hentries, find?]
  · simp [find?, entries_set_of_not_mem hk, List.find?_append, h]

/-- After several keys were set, the last value of each is found. -/
theorem find?_foldl_set (t : Table κ α) (es : List (κ × α)) (k : κ) :
    (es.foldl (fun acc e => acc.set e.1 e.2) t).find? k =
      ((es.reverse.find? (·.1 = k)).map (·.2)).or (t.find? k) := by
  induction es generalizing t with
  | nil => rfl
  | cons e es ih =>
    rw [List.foldl_cons, ih, List.reverse_cons, List.find?_append, Option.map_or, Option.or_assoc]
    congr 1
    by_cases hk : e.1 = k
    · subst hk
      simp [find?_set_self]
    · simp [find?_set_of_ne hk, hk]

theorem mem_entries_insertNew {t : Table κ α} {k : κ} {v : α} {e : κ × α}
    (h : e ∈ (t.insertNew k v).entries) : e ∈ t.entries ∨ e = (k, v) := by
  by_cases hk : k ∈ t.keys
  · rw [insertNew_of_mem hk] at h
    exact Or.inl h
  · rw [entries_insertNew hk, List.mem_append, List.mem_singleton] at h
    exact h

theorem mem_entries_set {t : Table κ α} {k : κ} {v : α} {e : κ × α}
    (h : e ∈ (t.set k v).entries) : e ∈ t.entries ∨ e = (k, v) := by
  by_cases hk : k ∈ t.keys
  · rw [entries_set_of_mem hk] at h
    obtain ⟨e', he', rfl⟩ := List.mem_map.1 h
    split
    · exact Or.inr rfl
    · exact Or.inl he'
  · rw [entries_set_of_not_mem hk, List.mem_append, List.mem_singleton] at h
    exact h

theorem mem_entries_foldl_set {t : Table κ α} {es : List (κ × α)} {e : κ × α}
    (h : e ∈ (es.foldl (fun acc e => acc.set e.1 e.2) t).entries) : e ∈ t.entries ∨ e ∈ es := by
  induction es generalizing t with
  | nil => exact Or.inl h
  | cons e' es ih =>
    rcases ih h with h | h
    · rcases mem_entries_set h with h | rfl
      · exact Or.inl h
      · exact Or.inr List.mem_cons_self
    · exact Or.inr (List.mem_cons_of_mem e' h)

theorem mem_entries_update {t u : Table κ α} {e : κ × α} (h : e ∈ (t.update u).entries) :
    e ∈ t.entries ∨ e ∈ u.entries :=
  mem_entries_foldl_set h

end ContractCheck.Table
