import ContractCheck.Text.Utf8
import Mathlib.Data.List.Basic
import Mathlib.Data.UInt

/-!
Which bytes are decoded. Main statement: a text that arrives in blocks is decoded exactly if its bytes
are the UTF-8 of some text, and that text is the result. Where the blocks end does not matter.
-/
namespace ContractCheck.Text.Utf8

def IsTail (b : UInt8) : Prop :=
  0x80 ≤ b.toNat ∧ b.toNat ≤ 0xBF

namespace Pending

def Fits (p : Pending) : List UInt8 → Prop
  | [] => False
  | b :: tail =>
    (p.low ≤ b.toNat ∧ b.toNat ≤ p.high) ∧ tail.length + 1 = p.need ∧ ∀ x ∈ tail, IsTail x

def value (p : Pending) (tail : List UInt8) : Nat :=
  tail.foldl (fun n b => n * 64 + (b.toNat - 0x80)) p.code

def next (p : Pending) (b : UInt8) : Pending :=
  ⟨p.byte, p.start, p.need - 1, p.code * 64 + (b.toNat - 0x80), 0x80, 0xBF⟩

theorem value_singleton (p : Pending) (b : UInt8) :
    p.value [b] = p.code * 64 + (b.toNat - 0x80) := by
  rw [value, List.foldl_cons, List.foldl_nil]

theorem value_cons (p : Pending) (b : UInt8) (tail : List UInt8) :
    p.value (b :: tail) = (p.next b).value tail := by
  rw [value, value, next, List.foldl_cons]

theorem Fits.length_eq {p : Pending} {tail : List UInt8} (h : p.Fits tail) : tail.length = p.need := by
  cases tail with
  | nil => cases h
  | cons b tail => exact h.2.1

theorem fits_cons_iff (p : Pending) (b : UInt8) (tail : List UInt8) :
    p.Fits (b :: tail) ↔ (p.low ≤ b.toNat ∧ b.toNat ≤ p.high) ∧
      ((p.need = 1 ∧ tail = []) ∨ (1 < p.need ∧ (p.next b).Fits tail)) := by
  cases tail with
  | nil => simp [Fits, eq_comm]
  | cons x tail =>
    simp only [Fits, next, IsTail, List.length_cons, List.mem_cons, forall_eq_or_imp]
    grind

end Pending

def Continues : Option Pending → List Char → List UInt8 → Prop
  | none, cs, bytes => bytes = cs.flatMap String.utf8EncodeChar
  | some p, cs, bytes => ∃ tail rest, cs = Char.ofNat (p.value tail) :: rest ∧ p.Fits tail ∧
      bytes = tail ++ rest.flatMap String.utf8EncodeChar

theorem toNat_ofNat_of_le {n : Nat} (h : n ≤ 255) : (UInt8.ofNat n).toNat = n := by
  rw [UInt8.toNat_ofNat']
  omega

theorem toNat_tail (n : Nat) : (UInt8.ofNat (n % 64 + 128)).toNat = n % 64 + 128 :=
  toNat_ofNat_of_le (by omega)

theorem isTail_tail (n : Nat) : IsTail (UInt8.ofNat (n % 64 + 128)) := by
  rw [IsTail, toNat_tail]
  omega

/-- The code of a character is none of a surrogate. -/
theorem code_lt (c : Char) : c.val.toNat < 0xD800 ∨ 0xDFFF < c.val.toNat ∧ c.val.toNat < 0x110000 :=
  c.valid

/-- The first byte of several opens a character that the others complete. -/
theorem openSequence_utf8EncodeChar {c : Char} {b : UInt8} {tail : List UInt8}
    (h : String.utf8EncodeChar c = b :: tail) (hb : 0x80 ≤ b.toNat) (pos : Nat) :
    ∃ p, openSequence pos b = some p ∧ p.Fits tail ∧ p.value tail = c.val.toNat := by
  have hvalid := code_lt c
  rw [String.utf8EncodeChar] at h
  generalize c.val.toNat = v at *
  split_ifs at h with h1 h2 h3
  · obtain ⟨rfl, rfl⟩ := h
    rw [toNat_ofNat_of_le (by omega)] at hb
    omega
  -- two, three or four bytes; the code decides which first bytes are possible
  all_goals
    obtain ⟨rfl, rfl⟩ := h
    rw [openSequence, toNat_ofNat_of_le (by omega)]
    simp only [Bool.and_eq_true, decide_eq_true_eq]
    split_ifs
    all_goals first | omega | skip
    all_goals
      refine ⟨_, rfl, ⟨?_, rfl, ?_⟩, ?_⟩
      · simp only [toNat_tail]
        omega
      · simp only [List.mem_cons, List.not_mem_nil, or_false, forall_eq_or_imp, forall_eq,
          false_imp_iff, implies_true, isTail_tail, and_self]
      · simp only [Pending.value, List.foldl_cons, List.foldl_nil, toNat_tail]
        omega

/-- What a first byte tells: how many bytes follow it, what it says of the code, and where the code
would be written with fewer bytes, be one of a surrogate or be too large. -/
theorem openSequence_cases {pos : Nat} {b : UInt8} {p : Pending} (h : openSequence pos b = some p) :
    0x80 ≤ p.low ∧ p.high ≤ 0xBF ∧
      ((p.need = 1 ∧ b.toNat = p.code + 0xC0 ∧ 2 ≤ p.code ∧ p.code < 32) ∨
       (p.need = 2 ∧ b.toNat = p.code + 0xE0 ∧ p.code < 16 ∧ (p.code = 0 → 0xA0 ≤ p.low) ∧
          (p.code = 13 → p.high ≤ 0x9F)) ∨
       (p.need = 3 ∧ b.toNat = p.code + 0xF0 ∧ p.code ≤ 4 ∧ (p.code = 0 → 0x90 ≤ p.low) ∧
          (p.code = 4 → p.high ≤ 0x8F))) := by
  simp only [openSequence, Bool.and_eq_true, decide_eq_true_eq] at h
  split_ifs at h
  all_goals
    obtain rfl := Option.some.inj h
    dsimp only
    omega

theorem val_ofNat_of_isValidChar {n : Nat} (h : n.isValidChar) : (Char.ofNat n).val.toNat = n := by
  rw [Char.ofNat, dif_pos h]
  rfl

theorem eq_ofNat_of_toNat {b : UInt8} {n : Nat} (h : n = b.toNat) : UInt8.ofNat n = b := by
  rw [h, UInt8.ofNat_toNat]

/-- Bytes that complete an opened character are those of a character. -/
theorem utf8EncodeChar_openSequence {pos : Nat} {b : UInt8} {p : Pending}
    (h : openSequence pos b = some p) {tail : List UInt8} (hfits : p.Fits tail) :
    String.utf8EncodeChar (Char.ofNat (p.value tail)) = b :: tail := by
  have hlength := hfits.length_eq
  obtain ⟨hlow, hhigh, ⟨hneed, hb, hcode⟩ | ⟨hneed, hb, hcode⟩ | ⟨hneed, hb, hcode⟩⟩ :=
    openSequence_cases h
  · obtain ⟨x, rfl⟩ := List.length_eq_one_iff.1 (hlength.trans hneed)
    obtain ⟨hx, -⟩ := hfits
    rw [String.utf8EncodeChar, Pending.value, List.foldl_cons, List.foldl_nil,
      val_ofNat_of_isValidChar (by omega), if_neg (by omega), if_pos (by omega),
      eq_ofNat_of_toNat (b := b) (by omega), eq_ofNat_of_toNat (b := x) (by omega)]
  · obtain ⟨x, y, rfl⟩ := List.length_eq_two.1 (hlength.trans hneed)
    obtain ⟨hx, -, htail⟩ := hfits
    have hy : 0x80 ≤ y.toNat ∧ y.toNat ≤ 0xBF := htail y (by simp)
    rw [String.utf8EncodeChar, Pending.value, List.foldl_cons, List.foldl_cons, List.foldl_nil,
      val_ofNat_of_isValidChar (by omega), if_neg (by omega), if_neg (by omega), if_pos (by omega),
      eq_ofNat_of_toNat (b := b) (by omega), eq_ofNat_of_toNat (b := x) (by omega),
      eq_ofNat_of_toNat (b := y) (by omega)]
  · obtain ⟨x, y, z, rfl⟩ := List.length_eq_three.1 (hlength.trans hneed)
    obtain ⟨hx, -, htail⟩ := hfits
    have hy : 0x80 ≤ y.toNat ∧ y.toNat ≤ 0xBF := htail y (by simp)
    have hz : 0x80 ≤ z.toNat ∧ z.toNat ≤ 0xBF := htail z (by simp)
    rw [String.utf8EncodeChar, Pending.value, List.foldl_cons, List.foldl_cons, List.foldl_cons,
      List.foldl_nil, val_ofNat_of_isValidChar (by omega), if_neg (by omega), if_neg (by omega),
      if_neg (by omega), eq_ofNat_of_toNat (b := b) (by omega), eq_ofNat_of_toNat (b := x) (by omega),
      eq_ofNat_of_toNat (b := y) (by omega), eq_ofNat_of_toNat (b := z) (by omega)]

theorem utf8EncodeChar_eq_singleton {c : Char} {b : UInt8} {tail : List UInt8}
    (h : String.utf8EncodeChar c = b :: tail) (hb : b.toNat < 0x80) :
    c = Char.ofNat b.toNat ∧ tail = [] := by
  have hc : Char.ofNat c.val.toNat = c := Char.ofNat_toNat c
  have hvalid := code_lt c
  rw [String.utf8EncodeChar] at h
  generalize c.val.toNat = v at *
  split_ifs at h with h1
  · obtain ⟨rfl, rfl⟩ := h
    rw [toNat_ofNat_of_le (by omega)]
    exact ⟨hc.symm, rfl⟩
  all_goals
    obtain ⟨rfl, rfl⟩ := h
    rw [toNat_ofNat_of_le (by omega)] at hb
    omega

theorem utf8EncodeChar_ascii {b : UInt8} (hb : b.toNat < 0x80) :
    String.utf8EncodeChar (Char.ofNat b.toNat) = [b] := by
  rw [String.utf8EncodeChar, val_ofNat_of_isValidChar (.inl (by omega)), if_pos (by omega),
    UInt8.ofNat_toNat]

/-- Bytes that go on with a text between two characters, split at the first byte. -/
theorem continues_none_cons_iff (pos : Nat) (b : UInt8) (bytes : List UInt8) (cs : List Char) :
    Continues none cs (b :: bytes) ↔
      if b.toNat < 0x80 then ∃ rest, cs = Char.ofNat b.toNat :: rest ∧ Continues none rest bytes
      else ∃ p, openSequence pos b = some p ∧ Continues (some p) cs bytes := by
  constructor
  · intro h
    cases cs with
    | nil => cases h
    | cons c rest =>
      obtain ⟨first, tail, hc⟩ := List.exists_cons_of_ne_nil (String.utf8EncodeChar_ne_nil (c := c))
      rw [Continues, List.flatMap_cons, hc, List.cons_append] at h
      obtain ⟨rfl, rfl⟩ := List.cons.inj h
      split_ifs with hb
      · obtain ⟨rfl, rfl⟩ := utf8EncodeChar_eq_singleton hc hb
        exact ⟨rest, rfl, rfl⟩
      · obtain ⟨p, hopen, hfits, hvalue⟩ := openSequence_utf8EncodeChar hc (by omega) pos
        have hchar : c = Char.ofNat (p.value tail) := by
          rw [hvalue]
          exact (Char.ofNat_toNat c).symm
        exact ⟨p, hopen, tail, rest, by rw [hchar], hfits, rfl⟩
  · intro h
    split_ifs at h with hb
    · obtain ⟨rest, rfl, rfl⟩ := h
      rw [Continues, List.flatMap_cons, utf8EncodeChar_ascii hb, List.singleton_append]
    · obtain ⟨p, hopen, tail, rest, rfl, hfits, rfl⟩ := h
      rw [Continues, List.flatMap_cons, utf8EncodeChar_openSequence hopen hfits, List.cons_append]

/-- Bytes that go on with a text inside a character, split at the first byte. -/
theorem continues_some_cons_iff {p : Pending} (hp : 0 < p.need) (b : UInt8) (bytes : List UInt8)
    (cs : List Char) :
    Continues (some p) cs (b :: bytes) ↔ (p.low ≤ b.toNat ∧ b.toNat ≤ p.high) ∧
      if p.need ≤ 1 then ∃ rest, cs = Char.ofNat (p.code * 64 + (b.toNat - 0x80)) :: rest ∧
        Continues none rest bytes
      else Continues (some (p.next b)) cs bytes := by
  constructor
  · rintro ⟨tail, rest, rfl, hfits, hbytes⟩
    cases tail with
    | nil => cases hfits
    | cons x tail =>
      rw [List.cons_append] at hbytes
      obtain ⟨rfl, rfl⟩ := List.cons.inj hbytes
      obtain ⟨hrange, ⟨hneed, rfl⟩ | ⟨hneed, hfits⟩⟩ := (Pending.fits_cons_iff p b tail).1 hfits
      · rw [if_pos (by omega), Pending.value_singleton]
        exact ⟨hrange, rest, rfl, rfl⟩
      · rw [if_neg (by omega), Pending.value_cons]
        exact ⟨hrange, tail, rest, rfl, hfits, rfl⟩
  · rintro ⟨hrange, h⟩
    split_ifs at h with hneed
    · obtain ⟨rest, rfl, rfl⟩ := h
      refine ⟨[b], rest, by rw [Pending.value_singleton], ?_, rfl⟩
      exact (Pending.fits_cons_iff p b []).2 ⟨hrange, .inl ⟨by omega, rfl⟩⟩
    · obtain ⟨tail, rest, rfl, hfits, rfl⟩ := h
      refine ⟨b :: tail, rest, by rw [Pending.value_cons], ?_, rfl⟩
      exact (Pending.fits_cons_iff p b tail).2 ⟨hrange, .inr ⟨by omega, hfits⟩⟩

theorem need_pos_of_openSequence {pos : Nat} {b : UInt8} {p : Pending}
    (h : openSequence pos b = some p) : 0 < p.need := by
  have hcases := openSequence_cases h
  omega

theorem continues_nil_iff (pending : Option Pending) (cs : List Char) :
    Continues pending cs [] ↔ pending = none ∧ cs = [] := by
  cases pending with
  | none =>
    cases cs with
    | nil => simp [Continues]
    | cons c cs => simp [Continues]
  | some p =>
    refine iff_of_false ?_ (by simp)
    rintro ⟨tail, rest, rfl, hfits, hbytes⟩
    rw [(List.append_eq_nil_iff.1 hbytes.symm).1] at hfits
    exact hfits

/-- A character more has been read. -/
theorem exists_continues_cons_iff (c : Char) (done more : List Char) (bytes : List UInt8) :
    (∃ cs, more = cs.reverse ++ done ∧ ∃ rest, cs = c :: rest ∧ Continues none rest bytes) ↔
      ∃ cs, more = cs.reverse ++ (c :: done) ∧ Continues none cs bytes := by
  constructor
  · rintro ⟨_, hmore, rest, rfl, h⟩
    exact ⟨rest, by simpa using hmore, h⟩
  · rintro ⟨rest, hmore, h⟩
    exact ⟨c :: rest, by simpa using hmore, rest, rfl, h⟩

/-- Decoding comes to an end between two characters exactly if the bytes go on with a text, which is
then read. -/
theorem decodeFrom_eq_ok_iff (pos : Nat) {pending : Option Pending} (hp : ∀ p ∈ pending, 0 < p.need)
    (done more : List Char) (bytes : List UInt8) :
    (∃ last, decodeFrom pos pending done bytes = .ok (more, last, none)) ↔
      ∃ cs, more = cs.reverse ++ done ∧ Continues pending cs bytes := by
  induction bytes generalizing pos pending done with
  | nil =>
    simp only [decodeFrom, continues_nil_iff]
    constructor
    · rintro ⟨last, h⟩
      simp only [Except.ok.injEq, Prod.mk.injEq] at h
      exact ⟨[], h.1.symm, h.2.2, rfl⟩
    · rintro ⟨cs, hmore, rfl, rfl⟩
      exact ⟨pos, by rw [hmore, List.reverse_nil, List.nil_append]⟩
  | cons b bytes ih =>
    cases pending with
    | none =>
      simp only [continues_none_cons_iff pos]
      rw [decodeFrom]
      by_cases hb : b.toNat < 0x80
      · simp only [if_pos hb]
        rw [ih _ (by simp), exists_continues_cons_iff]
      · simp only [if_neg hb]
        cases hopen : openSequence pos b with
        | none => simp
        | some p =>
          have hneed : ∀ q ∈ some p, 0 < q.need := by
            simpa using need_pos_of_openSequence hopen
          rw [ih _ hneed]
          simp
    | some p =>
      have hneed : 0 < p.need := hp p rfl
      simp only [continues_some_cons_iff hneed]
      rw [decodeFrom]
      by_cases hrange : p.low ≤ b.toNat ∧ b.toNat ≤ p.high
      · simp only [hrange, decide_true, Bool.and_self, if_true, true_and, and_self]
        by_cases hlast : p.need ≤ 1
        · simp only [if_pos hlast]
          rw [ih _ (by simp), exists_continues_cons_iff]
        · simp only [if_neg hlast]
          refine ih _ ?_ _
          simp
          omega
      · have hrefused : (decide (p.low ≤ b.toNat) && decide (b.toNat ≤ p.high)) = false := by
          simpa [Bool.eq_false_iff] using hrange
        simp [hrange, hrefused]

theorem decodeFrom_append (pos : Nat) (pending : Option Pending) (done : List Char)
    (as bs : List UInt8) : decodeFrom pos pending done (as ++ bs) =
      (decodeFrom pos pending done as).bind fun r => decodeFrom r.2.1 r.2.2 r.1 bs := by
  induction as generalizing pos pending done with
  | nil => rfl
  | cons a as ih =>
    rw [List.cons_append]
    cases pending with
    | none =>
      rw [decodeFrom, decodeFrom]
      split_ifs
      · exact ih ..
      · cases openSequence pos a with
        | none => rfl
        | some p => exact ih ..
    | some p =>
      rw [decodeFrom, decodeFrom]
      dsimp only
      split_ifs
      · exact ih ..
      · exact ih ..
      · rfl

/-- A character that is left open wants at least one byte. -/
theorem need_pos_of_decodeFrom {pos : Nat} {pending : Option Pending}
    (hp : ∀ p ∈ pending, 0 < p.need) {done more : List Char} {bytes : List UInt8} {last : Nat}
    {left : Option Pending} (h : decodeFrom pos pending done bytes = .ok (more, last, left)) :
    ∀ p ∈ left, 0 < p.need := by
  induction bytes generalizing pos pending done with
  | nil =>
    simp only [decodeFrom, Except.ok.injEq, Prod.mk.injEq] at h
    rw [← h.2.2]
    exact hp
  | cons b bytes ih =>
    cases pending with
    | none =>
      rw [decodeFrom] at h
      split_ifs at h
      · exact ih (by simp) h
      · cases hopen : openSequence pos b with
        | none => simp [hopen] at h
        | some p =>
          rw [hopen] at h
          exact ih (by simpa using need_pos_of_openSequence hopen) h
    | some p =>
      rw [decodeFrom] at h
      dsimp only at h
      split_ifs at h with hrange hlast
      · exact ih (by simp) h
      · exact ih (by simp; omega) h

theorem continues_restart (pending : Option Pending) (cs : List Char) (bytes : List UInt8) :
    Continues (pending.map fun p => { p with start := 0 }) cs bytes ↔ Continues pending cs bytes := by
  cases pending with
  | none => rfl
  | some p =>
    simp only [Option.map_some, Continues]
    refine exists₂_congr fun tail rest => ?_
    cases tail with
    | nil => simp [Pending.Fits]
    | cons b tail => simp only [Pending.value, Pending.Fits]

/-- The texts that bytes go on with are those that decoding reads. -/
theorem exists_continues_iff (pos : Nat) {pending : Option Pending} (hp : ∀ p ∈ pending, 0 < p.need)
    (done : List Char) (bytes : List UInt8) (s : String) :
    (∃ cs, s = String.ofList (cs.reverse ++ done).reverse ∧ Continues pending cs bytes) ↔
      ∃ more, s = String.ofList more.reverse ∧
        ∃ last, decodeFrom pos pending done bytes = .ok (more, last, none) := by
  simp only [decodeFrom_eq_ok_iff pos hp]
  constructor
  · rintro ⟨cs, hs, hcs⟩
    exact ⟨_, hs, cs, rfl, hcs⟩
  · rintro ⟨_, hs, cs, rfl, hcs⟩
    exact ⟨cs, hs, hcs⟩

/-- Where the blocks end does not matter. -/
theorem decodeBlocks_eq_ok_iff {pending : Option Pending} (hp : ∀ p ∈ pending, 0 < p.need)
    (seen : Nat) (done : List Char) (lastBytes lastChars : Nat) (bytes : List UInt8) (s : String) :
    decodeBlocks pending seen done lastBytes lastChars bytes = .ok s ↔
      ∃ cs, s = String.ofList (cs.reverse ++ done).reverse ∧ Continues pending cs bytes := by
  induction hn : bytes.length using Nat.strongRecOn generalizing pending seen done lastBytes lastChars
    bytes with
  | ind n ih =>
    rw [decodeBlocks]
    split_ifs with hnil
    · subst hnil
      simp only [continues_nil_iff]
      cases pending with
      | none => simp [finish, eq_comm]
      | some p => simp [finish]
    · have hsize := blockSize_pos done.length lastBytes lastChars
      generalize blockSize done.length lastBytes lastChars = size at hsize ⊢
      have hshorter : (bytes.drop size).length < n := by
        have hlength := List.length_pos_iff.2 hnil
        rw [List.length_drop]
        omega
      rw [exists_continues_iff seen hp, ← List.take_append_drop size bytes, decodeFrom_append]
      dsimp only
      rw [List.take_append_drop]
      cases hblock : decodeFrom seen pending done (bytes.take size) with
      | error f =>
        dsimp only [Except.bind]
        split_ifs <;> simp
      | ok r =>
        obtain ⟨more, last, left⟩ := r
        have hleft := need_pos_of_decodeFrom hp hblock
        dsimp only [Except.bind]
        rw [ih _ hshorter (by simpa using hleft) _ _ _ _ _ rfl, ← exists_continues_iff last hleft]
        simp only [continues_restart]

/-- The bytes of a text give the text, in whatever blocks they arrive. -/
theorem decodeStream_eq_ok_iff (bytes : List UInt8) (s : String) :
    decodeStream bytes = .ok s ↔ s.toUTF8 = bytes.toByteArray := by
  rw [decodeStream, decodeBlocks_eq_ok_iff (by simp)]
  constructor
  · rintro ⟨cs, rfl, rfl⟩
    rw [List.append_nil, List.reverse_reverse]
    exact String.toByteArray_ofList
  · intro h
    refine ⟨s.toList, by simp, List.toByteArray_inj.1 ?_⟩
    exact h.symm.trans String.utf8Encode_toList.symm

theorem isValidUTF8_of_decodeStream {bytes : List UInt8} {s : String}
    (h : decodeStream bytes = .ok s) : bytes.toByteArray.IsValidUTF8 := by
  rw [← (decodeStream_eq_ok_iff bytes s).1 h]
  exact s.isValidUTF8

/-- Bytes that are those of no text are not decoded. -/
theorem not_isValidUTF8_of_decodeStream {bytes : List UInt8} {fault : Fault}
    (h : decodeStream bytes = .error fault) : ¬ bytes.toByteArray.IsValidUTF8 := by
  rintro ⟨cs, hcs⟩
  have hdecoded := (decodeStream_eq_ok_iff bytes (String.ofList cs)).2
    (String.toByteArray_ofList.trans hcs.symm)
  rw [h] at hdecoded
  cases hdecoded

end ContractCheck.Text.Utf8
