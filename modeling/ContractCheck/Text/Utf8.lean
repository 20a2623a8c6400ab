/-!
Decoding of UTF-8, byte by byte. What cannot be decoded is told with its place: the bad sequence is
the longest part of it that some well-formed sequence starts with.
-/
namespace ContractCheck.Text.Utf8

inductive Reason where
  | invalidStart
  | invalidContinuation
  | unexpectedEnd
deriving DecidableEq

structure Fault where
  byte : UInt8
  first : Nat
  last : Nat
  reason : Reason

def Reason.message : Reason → String
  | .invalidStart => "invalid start byte"
  | .invalidContinuation => "invalid continuation byte"
  | .unexpectedEnd => "unexpected end of data"

def hexByte (b : UInt8) : String :=
  String.ofList [Nat.digitChar (b.toNat / 16), Nat.digitChar (b.toNat % 16)]

def Fault.message (f : Fault) : String :=
  let place :=
    if f.first = f.last then "byte 0x" ++ hexByte f.byte ++ " in position " ++ toString f.first
    else "bytes in position " ++ toString f.first ++ "-" ++ toString f.last
  "'utf-8' codec can't decode " ++ place ++ ": " ++ f.reason.message

structure Pending where
  byte : UInt8
  start : Nat
  need : Nat
  code : Nat
  low : Nat := 0x80
  high : Nat := 0xBF

def openSequence (pos : Nat) (b : UInt8) : Option Pending :=
  let n := b.toNat
  if 0xC2 ≤ n && n ≤ 0xDF then some ⟨b, pos, 1, n - 0xC0, 0x80, 0xBF⟩
  else if n = 0xE0 then some ⟨b, pos, 2, 0, 0xA0, 0xBF⟩
  else if n = 0xED then some ⟨b, pos, 2, n - 0xE0, 0x80, 0x9F⟩
  else if 0xE1 ≤ n && n ≤ 0xEF then some ⟨b, pos, 2, n - 0xE0, 0x80, 0xBF⟩
  else if n = 0xF0 then some ⟨b, pos, 3, 0, 0x90, 0xBF⟩
  else if n = 0xF4 then some ⟨b, pos, 3, n - 0xF0, 0x80, 0x8F⟩
  else if 0xF1 ≤ n && n ≤ 0xF3 then some ⟨b, pos, 3, n - 0xF0, 0x80, 0xBF⟩
  else none

def decodeFrom (pos : Nat) (pending : Option Pending) (done : List Char) :
    List UInt8 → Except Fault (List Char × Nat × Option Pending)
  | [] => .ok (done, pos, pending)
  | b :: bs =>
    match pending with
    | none =>
      if b.toNat < 0x80 then decodeFrom (pos + 1) none (Char.ofNat b.toNat :: done) bs
      else
        match openSequence pos b with
        | some p => decodeFrom (pos + 1) (some p) done bs
        | none => .error ⟨b, pos, pos, .invalidStart⟩
    | some p =>
      if p.low ≤ b.toNat && b.toNat ≤ p.high then
        let code := p.code * 64 + (b.toNat - 0x80)
        if p.need ≤ 1 then decodeFrom (pos + 1) none (Char.ofNat code :: done) bs
        else decodeFrom (pos + 1) (some ⟨p.byte, p.start, p.need - 1, code, 0x80, 0xBF⟩) done bs
      else .error ⟨p.byte, p.start, pos - 1, .invalidContinuation⟩

def finish : List Char × Nat × Option Pending → Except Fault String
  | (done, _, none) => .ok (String.ofList done.reverse)
  | (_, pos, some p) => .error ⟨p.byte, p.start, pos - 1, .unexpectedEnd⟩

def decode (bytes : List UInt8) : Except Fault String :=
  (decodeFrom 0 none [] bytes).bind finish

/-- Whether the bytes end in the first two bytes of a surrogate, which are only judged together
with what follows. -/
def endsInSurrogate (bytes : List UInt8) : Bool :=
  match bytes.reverse with
  | b :: a :: _ => a == 0xED && 0xA0 ≤ b && b ≤ 0xBF
  | _ => false

def portion : Nat := 4096

/-- The size of the next block: 8192 bytes, or more if the characters that are still missing from a
portion would take more, being as long as those of the last block. -/
def blockSize (decoded lastBytes lastChars : Nat) : Nat :=
  max 8192 ((portion - decoded % portion) * lastBytes / lastChars)

theorem blockSize_pos (decoded lastBytes lastChars : Nat) :
    0 < blockSize decoded lastBytes lastChars :=
  Nat.lt_of_lt_of_le (by decide) (Nat.le_max_left ..)

/-- Decodes a text that arrives in blocks. Offsets count from the start of the block, together with
the bytes that were pending before it; so do those of a character that the last block leaves open. -/
def decodeBlocks (pending : Option Pending) (seen : Nat) (done : List Char)
    (lastBytes lastChars : Nat) (bytes : List UInt8) : Except Fault String :=
  if _h : bytes = [] then finish (done, seen, pending)
  else
    let size := blockSize done.length lastBytes lastChars
    let block := bytes.take size
    match decodeFrom seen pending done block with
    | .ok (more, pos, left) =>
      let start := (left.map (·.start)).getD pos
      decodeBlocks (left.map fun p => { p with start := 0 }) (pos - start) more block.length
        (more.length - done.length) (bytes.drop size)
    | .error f =>
      if f.reason = .invalidContinuation && endsInSurrogate block &&
          f.first + 2 = seen + block.length then
        .error { f with first := 0, last := 0 }
      else .error f
termination_by bytes.length
decreasing_by
  have hpos := blockSize_pos done.length lastBytes lastChars
  have : bytes.length ≠ 0 := fun h => _h (List.length_eq_zero_iff.1 h)
  simp only [List.length_drop]
  omega

def decodeStream (bytes : List UInt8) : Except Fault String :=
  decodeBlocks none 0 [] 0 0 bytes

end ContractCheck.Text.Utf8
