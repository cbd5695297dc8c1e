import StackScript.Text.Basic

/-! # Texts as bytes

Files hold texts in UTF-8. Decoding is strict: overlong forms, surrogates and cut-off
sequences are refused, and the fault says which bytes stand in the way.
-/

namespace StackScript.Text

/-- Why bytes cannot be read at a position. -/
inductive Undecodable.Reason where
  | invalidStart
  | invalidContinuation
  | endOfData
  deriving DecidableEq, Repr

/-- The bytes `start`, …, `start + length - 1` cannot be read. -/
structure Undecodable where
  start : Nat
  length : Nat
  first : UInt8
  reason : Undecodable.Reason
  deriving DecidableEq, Repr

/-- The reason in words. -/
def Undecodable.Reason.message : Undecodable.Reason → String
  | .invalidStart => "invalid start byte"
  | .invalidContinuation => "invalid continuation byte"
  | .endOfData => "unexpected end of data"

/-- Names the byte if there is only one, else the range of positions. -/
def Undecodable.message (u : Undecodable) : String :=
  let place :=
    if u.length = 1 then
      s!"byte 0x{String.ofList (Nat.toDigits 16 u.first.toNat)} in position {u.start}"
    else s!"bytes in position {u.start}-{u.start + u.length - 1}"
  s!"'utf-8' codec can't decode {place}: {u.reason.message}"

/-- A byte of the form `10xxxxxx`. -/
def isContinuation (b : UInt8) : Bool := 0x80 ≤ b && b < 0xc0

/-- How many bytes a sequence has, by its first byte; 0 if no sequence starts with it. -/
def sequenceLength (b : UInt8) : Nat :=
  if b < 0x80 then 1 else if b < 0xc2 then 0 else if b < 0xe0 then 2
  else if b < 0xf0 then 3 else if b < 0xf5 then 4 else 0

/-- May `b` stand second after `first`? It also keeps out overlong forms, surrogates and
numbers above the last code point. -/
def isSecond (first b : UInt8) : Bool :=
  isContinuation b &&
    !((first == 0xe0 && b < 0xa0) || (first == 0xed && 0xa0 ≤ b) ||
      (first == 0xf0 && b < 0x90) || (first == 0xf4 && 0x90 ≤ b))

/-- How many of the bytes after `first` can belong to its sequence, at most `wanted`. -/
def continuationCount (first : UInt8) (wanted : Nat) : List UInt8 → Nat
  | [] => 0
  | b :: rest =>
      if 0 < wanted && isSecond first b then
        1 + ((rest.take (wanted - 1)).takeWhile isContinuation).length
      else 0

/-- The code point of a complete sequence. -/
def decodeSequence (first : UInt8) (continuation : List UInt8) : Char :=
  let head := match continuation.length with
    | 0 => first.toNat
    | 1 => first.toNat % 0x20
    | 2 => first.toNat % 0x10
    | _ => first.toNat % 0x08
  Char.ofNat (continuation.foldl (fun n b => n * 0x40 + b.toNat % 0x40) head)

/-- Reads the bytes from position `start` on. -/
def decodeFrom (start : Nat) : List UInt8 → Except Undecodable Text
  | [] => .ok []
  | first :: rest =>
      let wanted := sequenceLength first - 1
      let found := continuationCount first wanted rest
      if sequenceLength first = 0 then .error ⟨start, 1, first, .invalidStart⟩
      else if found = wanted then
        (decodeFrom (start + 1 + found) (rest.drop found)).map
          (decodeSequence first (rest.take found) :: ·)
      else if found = rest.length then .error ⟨start, 1 + found, first, .endOfData⟩
      else .error ⟨start, 1 + found, first, .invalidContinuation⟩
termination_by bytes => bytes.length
decreasing_by simp only [List.length_cons, List.length_drop]; omega

/-- Reads bytes as a text. -/
def decodeUtf8 (bytes : List UInt8) : Except Undecodable Text := decodeFrom 0 bytes

/-- The bytes of one code point. -/
def encodeChar (c : Char) : List UInt8 :=
  let n := c.toNat
  let tail (shift : Nat) : UInt8 := (0x80 + n / shift % 0x40).toUInt8
  if n < 0x80 then [n.toUInt8]
  else if n < 0x800 then [(0xc0 + n / 0x40).toUInt8, tail 1]
  else if n < 0x10000 then [(0xe0 + n / 0x1000).toUInt8, tail 0x40, tail 1]
  else [(0xf0 + n / 0x40000).toUInt8, tail 0x1000, tail 0x40, tail 1]

/-- Writes a text as bytes. -/
def encodeUtf8 (t : Text) : List UInt8 := t.flatMap encodeChar

end StackScript.Text
