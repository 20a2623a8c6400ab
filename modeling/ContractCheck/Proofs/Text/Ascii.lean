import ContractCheck.Proofs.Text.LetterCase

/-!
Names of ASCII letters. They are lower-cased letter by letter, whatever stands around them; so the
lower-cased name of a method tells its owner and its own name apart.
-/
namespace ContractCheck.Text

/-- A name of ASCII characters, without a colon, as identifiers are. -/
def Ascii (name : String) : Prop :=
  ∀ c ∈ name.toList, c.toNat < 128 ∧ c ≠ ':'

-- by the letters of the name, not by all characters that there are
instance (name : String) : Decidable (Ascii name) :=
  List.decidableBAll _ name.toList

theorem lowerFrom_ascii {cs : List Char} (h : ∀ c ∈ cs, c.toNat < 128) (before : List Char) :
    lowerFrom before cs = cs.map Char.toLower := by
  induction cs generalizing before with
  | nil => rfl
  | cons c cs ih =>
    have hc : c.toNat < 128 := h c List.mem_cons_self
    have hsigma : c.toNat ≠ 0x3A3 := by omega
    have hdotted : c.toNat ≠ 0x130 := by omega
    have hat : lowerAt before c cs = [c.toLower] := by
      rw [lowerAt, if_neg hsigma, if_neg hdotted, lowerSimple, if_pos hc]
    rw [lowerFrom, hat, ih (fun d hd => h d (List.mem_cons_of_mem c hd)), List.map_cons]
    rfl

theorem toLower_ne_colon {c : Char} (hn : c.toNat < 128) (hc : c ≠ ':') : c.toLower ≠ ':' := by
  have h : ∀ n < 128, Char.ofNat n ≠ ':' → (Char.ofNat n).toLower ≠ ':' := by decide +kernel
  simpa using h c.toNat hn (by simpa using hc)

theorem Ascii.colon_not_mem {name : String} (h : Ascii name) :
    ':' ∉ name.toList.map Char.toLower := by
  intro hmem
  obtain ⟨c, hc, hcolon⟩ := List.mem_map.1 hmem
  exact toLower_ne_colon (h c hc).1 (h c hc).2 hcolon

theorem Ascii.lower_eq {name : String} (h : Ascii name) :
    lower name = String.ofList (name.toList.map Char.toLower) := by
  rw [lower, lowerFrom_ascii fun c hc => (h c hc).1]

theorem Ascii.lower_qualified {owner name : String} (ho : Ascii owner) (hn : Ascii name) :
    lower (owner ++ "::" ++ name) = String.ofList (owner.toList.map Char.toLower ++
      ':' :: ':' :: name.toList.map Char.toLower) := by
  have hascii : ∀ c ∈ (owner ++ "::" ++ name).toList, c.toNat < 128 := by
    intro c hc
    simp only [String.toList_append, List.mem_append] at hc
    rcases hc with (hc | hc) | hc
    · exact (ho c hc).1
    · have hcolon : c = ':' := by simpa using hc
      rw [hcolon]
      decide
    · exact (hn c hc).1
  rw [lower, lowerFrom_ascii hascii]
  simp [String.toList_append]

/-- The first colon divides a text in one way only. -/
theorem append_colon_inj {xs ys as bs : List Char} (hxs : ':' ∉ xs) (hys : ':' ∉ ys)
    (h : xs ++ ':' :: as = ys ++ ':' :: bs) : xs = ys ∧ as = bs := by
  have hfront : ∀ {zs cs : List Char}, ':' ∉ zs → (zs ++ ':' :: cs).takeWhile (· ≠ ':') = zs := by
    intro zs cs hzs
    have hne : ∀ c ∈ zs, decide (c ≠ ':') = true := by
      intro c hc
      have hcolon : c ≠ ':' := ne_of_mem_of_not_mem hc hzs
      simp [hcolon]
    rw [List.takeWhile_append_of_pos hne]
    simp
  have heq : xs = ys := by
    rw [← hfront hxs, h, hfront hys]
  subst heq
  exact ⟨rfl, List.tail_eq_of_cons_eq (List.append_cancel_left h)⟩

/-- The lower-cased name of a method of ASCII names is that of no other owner and name. -/
theorem Ascii.qualified_inj {a b m n : String} (ha : Ascii a) (hb : Ascii b) (hm : Ascii m)
    (hn : Ascii n) (h : lower (a ++ "::" ++ m) = lower (b ++ "::" ++ n)) :
    lower a = lower b ∧ lower m = lower n := by
  rw [ha.lower_qualified hm, hb.lower_qualified hn] at h
  have hlist := congrArg String.toList h
  rw [String.toList_ofList, String.toList_ofList] at hlist
  obtain ⟨howner, hrest⟩ := append_colon_inj ha.colon_not_mem hb.colon_not_mem hlist
  have hname := List.tail_eq_of_cons_eq hrest
  rw [ha.lower_eq, hb.lower_eq, hm.lower_eq, hn.lower_eq, howner, hname]
  exact ⟨rfl, rfl⟩

end ContractCheck.Text
