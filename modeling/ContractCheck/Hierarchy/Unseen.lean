/-!
Searches over names keep a list of the keys they have seen and a queue of names to come. Each key
that is met for the first time adds to the queue, but only once; so the queue together with what the
unseen keys may still add gets shorter at every step.
-/
namespace ContractCheck

def unseen (weight : String → Nat) (seen : List String) : List String → Nat
  | [] => 0
  | k :: keys => (if k ∈ seen then 0 else weight k) + unseen weight seen keys

theorem unseen_cons_le (weight : String → Nat) (k : String) (seen keys : List String) :
    unseen weight (k :: seen) keys ≤ unseen weight seen keys := by
  induction keys with
  | nil => exact Nat.le_refl _
  | cons a keys ih =>
    have h : (if a ∈ k :: seen then 0 else weight a) ≤ if a ∈ seen then 0 else weight a := by
      by_cases ha : a ∈ seen <;> simp [ha]
      split <;> omega
    simp only [unseen]
    omega

theorem unseen_cons_add_le {weight : String → Nat} {k : String} {seen keys : List String}
    (hk : k ∈ keys) (hs : k ∉ seen) :
    unseen weight (k :: seen) keys + weight k ≤ unseen weight seen keys := by
  induction keys with
  | nil => simp at hk
  | cons a keys ih =>
    have hle := unseen_cons_le weight k seen keys
    simp only [unseen]
    rcases List.mem_cons.1 hk with rfl | hk
    · simp [hs]
      omega
    · have hlt := ih hk
      by_cases ha : a ∈ seen
      · simp [ha]
        omega
      · by_cases hak : a = k <;> simp [ha, hak] <;> omega

end ContractCheck
