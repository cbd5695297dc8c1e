import StackScript.Value.Render

/-! # Lone halves of surrogate pairs

An escape in a matrix text can spell half of a surrogate pair alone. A written text has a
stand-in for it, but cannot be put out as bytes. Whether a code point is a stand-in or is itself
meant shows when the value is written once more with other stand-ins: a half is meant where the
two texts differ.
-/

namespace StackScript

namespace Json

/-- The code unit whose escape a text begins with. -/
def unitAtFront? : Text → Option Nat
  | '\\' :: 'u' :: a :: b :: c :: d :: _ => unit? a b c d
  | _ => none

/-- Does a text begin with the escape of a second half? -/
def beginsLow (t : Text) : Bool := (unitAtFront? t).any isLowHalf

/-- Replaces the escapes of lone halves by stand-ins. `joined` says that a first half was just
before, to which a second half belongs. -/
def spellHalves (standIn : Nat → Char) : (joined : Bool) → Text → Text
  | _, [] => []
  | joined, '\\' :: 'u' :: a :: b :: c :: d :: rest =>
      let escape := ['\\', 'u', a, b, c, d]
      match unit? a b c d with
      | none => escape ++ spellHalves standIn false rest
      | some u =>
          if isHighHalf u then
            if beginsLow rest then escape ++ spellHalves standIn true rest
            else standIn u :: spellHalves standIn false rest
          else if isLowHalf u && !joined then standIn u :: spellHalves standIn false rest
          else escape ++ spellHalves standIn false rest
  | _, '\\' :: c :: rest => '\\' :: c :: spellHalves standIn false rest
  | _, c :: rest => c :: spellHalves standIn false rest

end Json

namespace Value

/-- The written form of a value with other stand-ins for lone halves. -/
def renderWith (standIn : Nat → Char) : (depth : Nat) → Value → Except Fault Text
  | depth + 2, .list items => renderItems (renderWith standIn depth) items
  | depth + 2, .text t => do
      if Text.isMatrixLiteral t then
        match ← Json.readList? depth (Json.spellHalves standIn false t) with
        | some items => renderItems (renderWith standIn depth) items
        | none => return Text.quoteStripped t
      else renderText depth (renderWith standIn depth) t
  | depth, v => v.render depth

end Value

/-- The written stack with other stand-ins for lone halves. -/
def Stack.renderWith (standIn : Nat → Char) (depth : Nat) (s : Stack) : Except Fault Text := do
  return Text.join ['\n'] (← s.reverse.mapM (Value.renderWith standIn depth))

/-- Halves of surrogate pairs, from position `start` on, cannot be encoded. -/
structure Text.Unencodable where
  start : Nat
  length : Nat
  first : Nat
  deriving DecidableEq, Repr

/-- Names the half if there is only one, else the range of positions. -/
def Text.Unencodable.message (u : Text.Unencodable) : String :=
  let place :=
    if u.length = 1 then
      let half := String.ofList (Text.hexDigits 4 u.first)
      s!"character '\\u{half}' in position {u.start}"
    else s!"characters in position {u.start}-{u.start + u.length - 1}"
  s!"'utf-8' codec can't encode {place}: surrogates not allowed"

/-- The first lone halves in a text, given the text with other stand-ins. -/
def Text.unencodable? (t other : Text) : Option Text.Unencodable :=
  let halves := t.zipWith (fun c d => if c == d then none else Text.half? c) other
  match halves.dropWhile Option.isNone with
  | some first :: rest =>
      some { start := (halves.takeWhile Option.isNone).length
             length := 1 + (rest.takeWhile Option.isSome).length
             first := first }
  | _ => none

/-- The lone halves that keep the written stack from being encoded. The other stand-in is that of
the half next to it, so that a half that is shown escaped takes as many code points. -/
def Stack.unencodable? (depth : Nat) (s : Stack) : Option Text.Unencodable :=
  match s.render depth, s.renderWith (fun half => Text.standIn (half ^^^ 1)) depth with
  | .ok t, .ok other => Text.unencodable? t other
  | _, _ => none

example : Stack.unencodable? 9 [.text "[[\"a\\uD83D\\ude00\\ud800\"]]".toList] =
    some ⟨5, 1, 0xd800⟩ := by decide +kernel

end StackScript
