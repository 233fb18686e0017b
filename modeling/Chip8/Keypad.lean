import Chip8.Argument

/-!
The keypad.

Sixteen keys, each up or down. Waiting for a key compares two snapshots: what counts is the lowest
key that is down now and was up before (`firstPressed?`, `firstPressed?_eq_some_iff`). A host hands
in key states as an array, and only one row of sixteen is a keypad. Whatever counts as true is a key
that is down.
-/
namespace Chip8

abbrev Keypad := Vector Bool 16

/-- Key states as a host hands them in: their number along each axis, and the states in order. -/
structure KeyStates where
  shape : List Nat
  states : List Bool
  deriving DecidableEq, Repr

/-- The key states in lists in lists, of which none may be missing. -/
def KeyStates.ofValue (v : Value) : Except Refusal KeyStates :=
  let n := v.nested
  if v.holdsNone then .error .unreadable
  else if n.even then .ok ⟨n.shape, n.leaves.map Value.truth⟩
  else .error .unevenRows

namespace Keypad

def released : Keypad := Vector.replicate 16 false

/-- Whether a key is down. -/
def isDown (k : Keypad) (key : Nibble) : Bool :=
  have := key.toNat_lt
  k[key.toNat]

/-- The lowest key down in `now` that is up in `before`. -/
def firstPressed? (now before : Keypad) : Option (Fin 16) :=
  (List.finRange 16).find? fun i => now.get i && !before.get i

/-- The number of a key. A number with a fraction is refused for what it is only if it lies among
the numbers of keys. -/
def keyOfValue : Value → Except Refusal Int
  | .integer n => .ok n
  | .real x => .error (if 0 ≤ x && x < 16 then .wrongKind else .noSuchKey (Value.real x).quoted)
  | _ => .error .wrongKind

/-- The keypad with the key of that number down or up. -/
def press (k : Keypad) (key : Int) (down : Bool) : Except Refusal Keypad :=
  if h : 0 ≤ key ∧ key < 16 then
    have : key.toNat < 16 := by omega
    .ok (k.set key.toNat down)
  else .error (.noSuchKey (toString key))

/-- The keypad that key states describe. -/
def ofStates (s : KeyStates) : Except Refusal Keypad :=
  if s.shape = [16] then .ok (Vector.ofFn fun i => s.states.getD i false)
  else .error (.keyStates s.shape)

/-- The keypad as a row of states. -/
def toStates (k : Keypad) : KeyStates := ⟨[16], k.toList⟩

theorem ofStates_toStates (k : Keypad) : ofStates k.toStates = .ok k := by
  simp only [ofStates, toStates, if_true, Except.ok.injEq]
  ext i hi
  simp

theorem firstPressed?_eq_none_iff {now before : Keypad} :
    firstPressed? now before = none ↔ ∀ i : Fin 16, now.get i = true → before.get i = true := by
  simp [firstPressed?]

theorem firstPressed?_eq_some_iff {now before : Keypad} {i : Fin 16} :
    firstPressed? now before = some i ↔
      now.get i = true ∧ before.get i = false ∧ ∀ j < i, now.get j = true → before.get j = true := by
  simp only [firstPressed?, List.find?_eq_some_iff_getElem, List.getElem_finRange,
    Bool.and_eq_true, Bool.not_eq_true', List.length_finRange]
  constructor
  · rintro ⟨⟨h1, h2⟩, k, hk, rfl, h3⟩
    refine ⟨h1, h2, fun j hj hn => ?_⟩
    have := h3 j hj
    simp_all
  · rintro ⟨h1, h2, h3⟩
    refine ⟨⟨h1, h2⟩, i, i.isLt, rfl, fun j hj => ?_⟩
    have := h3 ⟨j, Nat.lt_trans hj i.isLt⟩ hj
    simp_all

end Keypad
end Chip8
