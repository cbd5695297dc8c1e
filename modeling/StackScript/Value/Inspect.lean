import StackScript.Value.Basic

/-! # Values in messages

A message shows a value so that its representation can be told: texts are quoted, and
doubles are not normalized. Every level of nesting takes one of the `depth` nested calls
that are left.
-/

namespace StackScript.Value

/-- A value as messages show it. -/
def inspect : (depth : Nat) → Value → Except Fault Text
  | _, .text t => .ok (Text.shown t)
  | _, .bool b => .ok (if b then "True".toList else "False".toList)
  | _, .null => .ok "None".toList
  | _, .number n => n.inspect
  | 0, .list _ | 0, .object _ => .error .tooDeep
  | depth + 1, .list items => do
      let shown ← items.mapM (inspect depth)
      return '[' :: Text.join [',', ' '] shown ++ [']']
  | depth + 1, .object fields => do
      let shown ← fields.mapM fun field => do
        return Text.shown field.1 ++ [':', ' '] ++ (← inspect depth field.2)
      return '\x7b' :: Text.join [',', ' '] shown ++ ['\x7d']

end StackScript.Value
