import Chip8.Numeral.Shortest
import Chip8.Text.Quoted

/-!
Values that a host hands in to be shown.

`text` shows a value by itself. Among others, strings stand in quotes (`quoted`), so that one can
tell them from numbers, and what a list or a table holds is among others there.
-/
namespace Chip8

inductive Value where
  | none
  | flag (b : Bool)
  | integer (n : Int)
  | real (x : Float)
  | string (s : String)
  | list (items : List Value)
  /-- Values under keys, in the order of the keys' first mention. -/
  | table (entries : List (String × Value))
  deriving Inhabited

namespace Value

mutual

/-- A value as it stands among others. -/
def quoted : Value → String
  | .none => "None"
  | .flag true => "True"
  | .flag false => "False"
  | .integer n => toString n
  | .real x => Numeral.Shortest.text x
  | .string s => Text.quote s
  | .list items => "[" ++ ", ".intercalate (quotedItems items) ++ "]"
  | .table entries => "\x7b" ++ ", ".intercalate (quotedEntries entries) ++ "\x7d"

def quotedItems : List Value → List String
  | [] => []
  | v :: rest => quoted v :: quotedItems rest

def quotedEntries : List (String × Value) → List String
  | [] => []
  | (key, v) :: rest => (Text.quote key ++ ": " ++ quoted v) :: quotedEntries rest

end

/-- A value by itself. -/
def text : Value → String
  | .string s => s
  | v => v.quoted

/-- The number that a value counts as, if it is one; a flag counts as one or zero. -/
def number? : Value → Option Int
  | .flag b => some (if b then 1 else 0)
  | .integer n => some n
  | _ => Option.none

/-- Values in one text: none is empty, one shows itself, several stand in parentheses. -/
def joined : List Value → String
  | [] => ""
  | [v] => v.text
  | vs => "(" ++ ", ".intercalate (quotedItems vs) ++ ")"

end Value
end Chip8
