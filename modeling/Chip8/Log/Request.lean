import Chip8.Log.Basic

/-!
Messages as a host asks for them.

A host gives the level of a message by itself, or by the name of the level in small letters. Fields
are pairs of a key and a value; a key may not be one of the names that the message itself goes by.
-/
namespace Chip8.Log

inductive Request where
  | atLevel (level : Value)
  /-- By the name of what a logger does. -/
  | byName (name : Value)

/-- The fields of pairs, or of a table. -/
def Fields.ofValue : Value → Except Refusal Fields
  | .table entries => .ok entries
  | v => do
    let pairs ← (← v.items).mapM fun pair => do
      match ← pair.items with
      | [key, value] => .ok (key, value)
      | _ => .error .unreadable
    let entries ← pairs.mapM fun
      | (.string key, value) => .ok (key, value)
      | _ => .error .wrongKind
    return Fields.ofList entries

/-- Fields whose keys must not be among some names. -/
def Fields.avoid (fields : Fields) (names : List String) : Except Refusal Unit :=
  if fields.any fun (key, _) => names.contains key then .error .wrongKind else .ok ()

/-- What a logger has and does not do. -/
def parts : List String :=
  ["name", "stream", "threshold", "use_colors", "show_timestamps", "hex_fields", "start_time",
    "LEVELS"]

/-- The name of a level in small letters. -/
def Level.method (l : Level) : String := l.name.map Char.toLower

/-- A message at a level. -/
def messageAt (level : Except Refusal Level) (text fields : Value) : Except Refusal Message := do
  let fields ← Fields.ofValue fields
  fields.avoid ["self", "level", "message"]
  return ⟨← level, text.text, fields⟩

/-- A message whose text is among the fields. -/
def messageAmong (level fields : Value) : Except Refusal Message := do
  let fields ← Fields.ofValue fields
  fields.avoid ["self", "level"]
  match fields.lookup "message" with
  | none => .error .wrongKind
  | some text =>
    return ⟨← Level.ofValue level, text.text, fields.filter fun (key, _) => key ≠ "message"⟩

namespace Request

/-- The message that a host asks for. -/
def message : Request → (text fields : Value) → Except Refusal Message
  | .atLevel level, text, fields => messageAt (Level.ofValue level) text fields
  | .byName (.string name), text, fields =>
    match Level.all.find? fun l => l.method = name with
    | some level => messageAt (.ok level) text fields
    | none =>
      if name = "log" then messageAmong text fields
      else .error (if parts.contains name then .wrongKind else .unknownName)
  | .byName _, _, _ => .error .wrongKind

end Request

/-- What a request prints, and the clock after it. -/
def Logger.answer (l : Logger) (clock : Clock) (r : Request) (text fields : Value) :
    Except Refusal String × Clock :=
  match r.message text fields with
  | .ok m => l.print clock m
  | .error e => (.error e, clock)

/-- The keys of fields that a host has printed in hexadecimal. A list or a table is no key. -/
def keysOfValue (v : Value) : Except Refusal (List String) := do
  let keys ← (← v.items).mapM fun
    | .list _ | .table _ => .error .wrongKind
    | .string key => .ok [key]
    | _ => .ok []
  return keys.flatten

/-- The logger that a host describes, with the clock after it. -/
def Logger.ofValues (name level hexKeys : Value) (colors terminal timestamps : Bool)
    (clock : Clock) : Except Refusal (Logger × Clock) := do
  let threshold ← Level.ofValue level
  let keys ← keysOfValue hexKeys
  Logger.create name.text threshold colors terminal timestamps keys clock

end Chip8.Log
