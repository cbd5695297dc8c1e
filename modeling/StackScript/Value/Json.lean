import StackScript.Value.Basic

/-! # Matrix texts

A matrix text is a JSON text. Besides the standard the words `NaN`, `Infinity` and
`-Infinity` are numbers. Numerals without a fraction and an exponent are integers of any
size up to the digit limit; the others are doubles, which stay doubles. Of fields with the
same name the first gives the place and the last gives the value.

An escape can spell a lone half of a surrogate pair, which no text can hold. It is read as its
stand-in: the last code points, which are for private use, stand for the halves in order. If one of
them is itself in a value that is shown in full, it is taken for that half.
-/

namespace StackScript.Json

/-- Why a text is not read. -/
inductive Failure where
  | invalid
  /-- The brackets are nested too deeply. -/
  | tooDeep
  deriving DecidableEq, Repr

/-- Reads something off the front of a text and returns it with the rest. -/
abbrev Reader (α : Type) := Text → Except Failure (α × Text)

/-- The code points that may stand around values. -/
def isBlank (c : Char) : Bool := c == ' ' || c == '\t' || c == '\n' || c == '\r'

/-- The text behind the blanks that it begins with. -/
def skipBlanks (t : Text) : Text := t.dropWhile isBlank

/-- The value of a hexadecimal digit. -/
def hexValue? (c : Char) : Option Nat :=
  if c.isDigit then some (c.toNat - '0'.toNat)
  else if 'a' ≤ c && c ≤ 'f' then some (c.toNat - 'a'.toNat + 10)
  else if 'A' ≤ c && c ≤ 'F' then some (c.toNat - 'A'.toNat + 10)
  else none

/-- The code unit that four hexadecimal digits spell. -/
def unit? (a b c d : Char) : Option Nat := do
  let a ← hexValue? a
  let b ← hexValue? b
  let c ← hexValue? c
  let d ← hexValue? d
  return ((a * 16 + b) * 16 + c) * 16 + d

/-- The code point of an escape with a single letter. -/
def escaped? : Char → Option Char
  | '"' => some '"'
  | '\\' => some '\\'
  | '/' => some '/'
  | 'b' => some '\x08'
  | 'f' => some '\x0c'
  | 'n' => some '\n'
  | 'r' => some '\r'
  | 't' => some '\t'
  | _ => none

/-- The code points and code units of a string up to its closing quote, and the rest behind
that quote. -/
def units? : Text → Option (List Nat × Text)
  | [] => none
  | '"' :: rest => some ([], rest)
  | '\\' :: 'u' :: a :: b :: c :: d :: rest => do
      let first ← unit? a b c d
      let (more, rest) ← units? rest
      return (first :: more, rest)
  | '\\' :: c :: rest => do
      let first ← escaped? c
      let (more, rest) ← units? rest
      return (first.toNat :: more, rest)
  | c :: rest =>
      if c == '\\' || c < ' ' then none
      else do
        let (more, rest) ← units? rest
        return (c.toNat :: more, rest)

/-- The first half of a surrogate pair. -/
def isHighHalf (u : Nat) : Bool := 0xd800 ≤ u && u < 0xdc00

/-- The second half of a surrogate pair. -/
def isLowHalf (u : Nat) : Bool := 0xdc00 ≤ u && u < 0xe000

/-- A code unit as a code point. -/
def ofUnit (u : Nat) : Char :=
  if isHighHalf u || isLowHalf u then Text.standIn u else Char.ofNat u

/-- Joins the halves of surrogate pairs. -/
def joinUnits : List Nat → Text
  | [] => []
  | [u] => [ofUnit u]
  | u :: w :: rest =>
      if isHighHalf u && isLowHalf w then
        Char.ofNat (0x10000 + (u - 0xd800) * 0x400 + (w - 0xdc00)) :: joinUnits rest
      else ofUnit u :: joinUnits (w :: rest)

/-- The text of a string behind its opening quote. -/
def string : Reader Text := fun t =>
  match units? t with
  | some (units, rest) => .ok (joinUnits units, rest)
  | none => .error .invalid

/-- Digits without a leading zero. -/
def whole? : Text → Option (Text × Text)
  | '0' :: rest => some (['0'], rest)
  | t =>
      let (digits, rest) := Numeral.spanDigits t
      if digits.isEmpty then none else some (digits, rest)

/-- A point and digits, if they stand there. -/
def fraction (t : Text) : Text × Text :=
  match t with
  | '.' :: rest =>
      let (digits, rest) := Numeral.spanDigits rest
      if digits.isEmpty then ([], t) else (digits, rest)
  | _ => ([], t)

/-- An exponent, if one stands there. -/
def exponent? (t : Text) : Option (Int × Text) :=
  match t with
  | c :: rest =>
      let (negative, rest) := Numeral.splitSign rest
      let (digits, rest) := Numeral.spanDigits rest
      if (c == 'e' || c == 'E') && !digits.isEmpty then
        let n : Int := Numeral.natValue digits
        some (if negative then -n else n, rest)
      else none
  | [] => none

/-- A number. -/
def number : Reader Value := fun t =>
  let (negative, unsigned) := match t with
    | '-' :: rest => (true, rest)
    | _ => (false, t)
  match whole? unsigned with
  | none => .error .invalid
  | some (digits, rest) =>
      let (places, rest) := fraction rest
      let double (power : Int) : Value :=
        .number (.float (Numeral.decimalValue negative (digits ++ places) (power - places.length)))
      match exponent? rest with
      | some (power, rest) => .ok (double power, rest)
      | none =>
          if !places.isEmpty then .ok (double 0, rest)
          else if Numeral.digitLimit < digits.length then .error .invalid
          else
            let n : Int := Numeral.natValue digits
            .ok (.ofInt (if negative then -n else n), rest)

/-- The words that stand for values. -/
def words : List (Text × Value) :=
  [("null".toList, .null), ("true".toList, .bool true), ("false".toList, .bool false),
   ("NaN".toList, .number (.float Binary64.notANumber)),
   ("Infinity".toList, .number (.float Binary64.infinity)),
   ("-Infinity".toList, .number (.float (-Binary64.infinity)))]

/-- A value without parts. -/
def scalar : Reader Value := fun t =>
  match t with
  | '"' :: rest => (string rest).map fun (s, rest) => (.text s, rest)
  | _ =>
      match words.find? fun word => word.1.isPrefixOf t with
      | some (word, value) => .ok (value, t.drop word.length)
      | none => number t

/-- The elements of an array up to its closing bracket. Each takes at least one code point,
so that the length of the text bounds their number. -/
def elements (value : Reader Value) : (bound : Nat) → Reader (List Value)
  | 0, _ => .error .invalid
  | bound + 1, t => do
      let (first, rest) ← value t
      match skipBlanks rest with
      | ']' :: rest => return ([first], rest)
      | ',' :: rest =>
          let (more, rest) ← elements value bound (skipBlanks rest)
          return (first :: more, rest)
      | _ => .error .invalid

/-- A name, a colon and a value. -/
def field (value : Reader Value) : Reader (Text × Value) := fun t =>
  match t with
  | '"' :: rest => do
      let (name, rest) ← string rest
      match skipBlanks rest with
      | ':' :: rest =>
          let (v, rest) ← value (skipBlanks rest)
          return ((name, v), rest)
      | _ => .error .invalid
  | _ => .error .invalid

/-- The fields of an object up to its closing bracket. -/
def fields (value : Reader Value) : (bound : Nat) → Reader (List (Text × Value))
  | 0, _ => .error .invalid
  | bound + 1, t => do
      let (first, rest) ← field value t
      match skipBlanks rest with
      | '}' :: rest => return ([first], rest)
      | ',' :: rest =>
          let (more, rest) ← fields value bound (skipBlanks rest)
          return (first :: more, rest)
      | _ => .error .invalid

/-- Sets a field: in its old place if the object has it, else at the end. -/
def setField (object : List (Text × Value)) (name : Text) (value : Value) :
    List (Text × Value) :=
  if object.any (·.1 == name) then
    object.map fun old => if old.1 == name then (name, value) else old
  else object ++ [(name, value)]

/-- An array or an object behind its opening bracket. -/
def container (value : Reader Value) (opener : Char) : Reader Value := fun t =>
  let t := skipBlanks t
  if opener == '[' then
    match t with
    | ']' :: rest => .ok (.list [], rest)
    | _ => (elements value t.length t).map fun (items, rest) => (.list items, rest)
  else
    match t with
    | '}' :: rest => .ok (.object [], rest)
    | _ => (fields value t.length t).map fun (read, rest) =>
        (.object (read.foldl (fun object f => setField object f.1 f.2) []), rest)

/-- A value whose brackets are nested at most `depth` deep. -/
def value : (depth : Nat) → Reader Value
  | depth, c :: rest =>
      if c == '[' || c == '{' then
        match depth with
        | 0 => .error .tooDeep
        | depth + 1 => container (value depth) c rest
      else scalar (c :: rest)
  | _, [] => .error .invalid

/-- Reads a whole text as a value. -/
def read (depth : Nat) (t : Text) : Except Failure Value := do
  let (v, rest) ← value depth (skipBlanks t)
  if (skipBlanks rest).isEmpty then return v else .error .invalid

/-- Reads a matrix text: the list that it spells, if it spells one. -/
def readList? (depth : Nat) (t : Text) : Except Fault (Option (List Value)) :=
  match read depth t with
  | .ok (.list items) => .ok (some items)
  | .error .tooDeep => .error .tooDeep
  | _ => .ok none

end StackScript.Json
