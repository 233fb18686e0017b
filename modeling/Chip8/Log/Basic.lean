import Chip8.Argument

/-!
The log of a host.

A logger prints the messages of its threshold level and above. A line names the level and the
logger, and after the message come fields, `key=value`; fields that hold addresses are printed in
hexadecimal. With time stamps a line starts with the seconds since the logger was made. The clock is
a list of readings, so what is printed is a function of the calls alone; a reading that is refused
takes the place of a line, and is used up like any other.
-/
namespace Chip8.Log

inductive Level where
  | debug
  | info
  | warning
  | error
  | critical
  deriving DecidableEq, Repr

namespace Level

def name : Level → String
  | .debug => "DEBUG"
  | .info => "INFO"
  | .warning => "WARNING"
  | .error => "ERROR"
  | .critical => "CRITICAL"

def all : List Level := [.debug, .info, .warning, .error, .critical]

/-- How grave a level is. -/
def rank : Level → Nat
  | .debug => 0
  | .info => 1
  | .warning => 2
  | .error => 3
  | .critical => 4

/-- The colour number of a terminal. -/
def color : Level → Nat
  | .debug => 36
  | .info => 32
  | .warning => 33
  | .error => 31
  | .critical => 35

/-- A capital letter for a small one. The dotless i has the same capital as the dotted one; no
other letter outside the basic alphabet has its capital in the name of a level. -/
def capital (c : Char) : Char := if c = 'ı' then 'I' else c.toUpper

/-- The level of a name, in letters of either case. -/
def named (text : String) : Except Refusal Level :=
  let capitals := String.ofList (text.toList.map capital)
  match all.find? fun l => l.name = capitals with
  | some l => .ok l
  | none => .error .unknownLevel

/-- The level that a host names. Only a text has letters. -/
def ofValue : Value → Except Refusal Level
  | .string s => named s
  | _ => .error .unknownName

end Level

abbrev Fields := List (String × Value)

/-- Fields with a value given to a key. A key given twice keeps its first place. -/
def Fields.set : Fields → String → Value → Fields
  | [], key, value => [(key, value)]
  | (k, v) :: rest, key, value =>
    if k = key then (k, value) :: rest else (k, v) :: Fields.set rest key value

/-- The fields of keys and values given one after another. -/
def Fields.ofList (entries : List (String × Value)) : Fields :=
  entries.foldl (fun fields (key, value) => fields.set key value) []

/-- What is to be printed. -/
structure Message where
  level : Level
  text : String
  fields : Fields

/-! ### Time -/

/-- A time in seconds. -/
abbrev Time := Numeral.Binary

namespace Time

/-- The significant binary digits that a time is kept with. -/
def precision : Nat := 53

/-- The time that is kept for a time. -/
def kept (t : Time) : Time := t.nearest precision

/-- Whether a time can be kept: it has to be below `2 ^ 1024` seconds. -/
def keeps (t : Time) : Bool := t.kept.numerator.natAbs < Nat.pow 2 1024 * t.denominator

/-- The reading of a clock that counts sixty-fourths of a second. -/
def ofValue (v : Value) : Except Refusal Time := do
  let t : Time ← match ← v.number with
    | .whole n => pure ⟨n, 6⟩
    | .real x =>
      let b := Numeral.Binary.ofFloat x
      pure ⟨b.numerator, b.places + 6⟩
  if t.keeps then .ok t.kept else .error .outOfRange

end Time

/-- The times that a clock is going to show, or refuses to. -/
abbrev Clock := List (Except Refusal Time)

/-- The next reading of a clock. A clock that shows nothing more stands at zero. -/
def Clock.read : Clock → Except Refusal Time × Clock
  | [] => (.ok (.ofInt 0), [])
  | t :: rest => (t, rest)

structure Logger where
  name : String
  threshold : Level
  colored : Bool
  timestamps : Bool
  /-- The keys of fields that hold addresses. -/
  hexKeys : List String
  /-- The reading of the clock when the logger was made. -/
  start : Time

namespace Logger

/-- The keys that hold addresses unless a host names others. -/
def addressKeys : List String := ["pc", "opcode", "address", "index"]

/-- A logger made now, with the clock after it. Colours are for terminals. -/
def create (name : String) (threshold : Level) (colors terminal timestamps : Bool)
    (hexKeys : List String) (clock : Clock) : Except Refusal (Logger × Clock) :=
  let (start, clock) := clock.read
  start.map fun start =>
    (⟨name, threshold, colors && terminal, timestamps, hexKeys, start⟩, clock)

/-- A field in text. Instructions have four hexadecimal digits, other addresses three. -/
def fieldText (l : Logger) (key : String) (value : Value) : String :=
  match value.number? with
  | some n =>
    if l.hexKeys.contains key then
      key ++ "=0x" ++ Numeral.Hex.padded (if key = "opcode" then 4 else 3) n
    else key ++ "=" ++ value.text
  | none => key ++ "=" ++ value.text

/-- The seconds since the logger was made. Times too far apart are infinitely far apart. -/
def elapsed (l : Logger) (now : Time) : String :=
  let t : Time := now.sub l.start
  if t.keeps then Numeral.Fixed.text 2 t.kept.numerator t.kept.denominator
  else if t.numerator < 0 then "-inf" else "inf"

/-- The time stamp of a line, in seconds. -/
def stamp (l : Logger) (now : Time) : String :=
  "[" ++ Numeral.Fixed.rightAligned 8 (l.elapsed now) ++ "s]"

/-- The level as it stands in a line. -/
def levelText (l : Logger) (level : Level) : String :=
  let plain := "[" ++ Numeral.Fixed.rightAligned 8 level.name ++ "]"
  if l.colored then "\x1b[" ++ toString level.color ++ "m" ++ plain ++ "\x1b[0m" else plain

/-- A line after its time stamp. -/
def body (l : Logger) (m : Message) : String :=
  l.levelText m.level ++ "[" ++ l.name ++ "] " ++ m.text
    ++ String.join (m.fields.map fun (key, value) => " " ++ l.fieldText key value)

/-- What a message prints, and the clock after it. The clock is read only for a line that is printed
and stamped. -/
def print (l : Logger) (clock : Clock) (m : Message) : Except Refusal String × Clock :=
  if m.level.rank < l.threshold.rank then (.ok "", clock)
  else if l.timestamps then
    let (now, clock) := clock.read
    (now.map fun now => l.stamp now ++ l.body m ++ "\n", clock)
  else (.ok (l.body m ++ "\n"), clock)

/-- What messages print one after another, up to the first that is refused. -/
def printAll (l : Logger) (clock : Clock) : List Message → Except Refusal String × Clock
  | [] => (.ok "", clock)
  | m :: rest =>
    match l.print clock m with
    | (.ok first, clock) =>
      let (others, clock) := l.printAll clock rest
      (others.map (first ++ ·), clock)
    | refused => refused

end Logger
end Chip8.Log
