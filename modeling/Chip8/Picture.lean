import Chip8.Argument
import Chip8.Grid
import Chip8.Packed

/-!
Pictures of a display.

A display of any size becomes lines of text, or an image in which every pixel is a square of one
colour. `image` enlarges along both axes by the same factor, and a factor below one means one. A
large image is made of few different rows, and `packedImage` is the same image with equal rows
packed together (`unpack_packedImage`).

Lit pixels and dark ones have a `Paint` each: one colour for all, or one for each in reading order.
A host that asks for an image gets a `Raster`, or is refused. The arrays for it come from outside
(`Allocator`).
-/
namespace Chip8

structure Color where
  red : Byte
  green : Byte
  blue : Byte
  deriving DecidableEq, Repr

/-- A colour for lit pixels and one for dark ones, under a name. -/
structure Scheme where
  name : String
  lit : Color
  dark : Color
  deriving DecidableEq, Repr

/-- The colour of each pixel that is painted, by its number. -/
abbrev Paint := Nat → Color

namespace Color

/-- The channels of a colour. -/
def channels (c : Color) : List Byte := [c.red, c.green, c.blue]

/-- A colour as a host writes it, the integers of its channels. -/
def toValue (c : Color) : Value := .list (c.channels.map fun b => .integer b.toNat)

/-- Colours of three channels each. -/
def ofChannels : List Byte → List Color
  | r :: g :: b :: rest => ⟨r, g, b⟩ :: ofChannels rest
  | _ => []

def lime : Color := ⟨0, 255, 0⟩
def black : Color := ⟨0, 0, 0⟩
def amber : Color := ⟨255, 176, 0⟩
def white : Color := ⟨255, 255, 255⟩
def cyan : Color := ⟨0, 255, 255⟩
def darkBlue : Color := ⟨0, 0, 64⟩

end Color

namespace Paint

/-- One colour for all pixels. -/
def plain (c : Color) : Paint := fun _ => c

/-- The paint for a number of pixels that a host describes by channels: three of them or one that
stands for all three, and these for all pixels or for each. -/
def ofValue (pixels : Nat) (v : Value) : Except Refusal Paint := do
  let n := v.nested
  if !n.even then throw (.unevenChannels n.shape)
  let bytes ← n.leaves.mapM fun leaf => leaf.entry 8 0
  -- an axis that is not there is as one of length one
  let axes := n.shape.reverse
  let columns := axes.getD 0 1
  let rows := axes.getD 1 1
  if (columns = 1 ∨ columns = 3) ∧ (rows = 1 ∨ rows = pixels) ∧ (axes.drop 2).all (· = 1) then
    let colors := if columns = 1 then bytes.map fun b => ⟨b, b, b⟩ else Color.ofChannels bytes
    return fun k => colors.getD (if rows = 1 then 0 else k) .black
  else throw (.channels n.shape pixels)

end Paint

namespace Scheme

/-- The schemes that have a name. -/
def all : List Scheme := [
  ⟨"classic", .lime, .black⟩,
  ⟨"amber", .amber, .black⟩,
  ⟨"white", .white, .black⟩,
  ⟨"blue", .cyan, .darkBlue⟩]

/-- The scheme of a name. -/
def named (name : String) : Except Refusal Scheme :=
  match all.find? fun s => s.name = name with
  | some s => .ok s
  | none => .error (.unknownScheme name (all.map Scheme.name))

/-- The scheme that a host names. No list or table can be a name. -/
def ofValue : Value → Except Refusal Scheme
  | .list _ | .table _ => .error .wrongKind
  | v => named v.text

end Scheme

/-- The display of rows of pixels, if the rows are even. -/
def Grid.ofLists (rows : List (List Bool)) : Except Refusal ((w h : Nat) × Grid w h) :=
  let cells := (rows.map List.toArray).toArray
  let width := (cells.getD 0 #[]).size
  if cells.all fun r => r.size = width then
    .ok ⟨width, cells.size, Grid.ofFn fun x y => (cells.getD y #[]).getD x false⟩
  else .error .unevenRows

/-- The display that a host describes, a row by a text with a one for every lit pixel. -/
def Grid.ofValue (v : Value) : Except Refusal ((w h : Nat) × Grid w h) := do
  let rows ← (← v.items).mapM Value.items
  let lit : Value → Bool
    | .string s => s = "1"
    | _ => false
  Grid.ofLists (rows.map fun row => row.map lit)

namespace Picture
variable {w h : Nat}

/-- The side of the square that a pixel becomes. -/
def factor (scale : Int) : Nat := (max 1 scale).toNat

/-- Every entry repeated `k` times. -/
def enlarge {α : Type} (k : Nat) (xs : List α) : List α :=
  xs.flatMap (List.replicate k)

/-- The pixels of a row in colour. So many lit and so many dark ones came before. -/
def paintRow (lit dark : Paint) (litBefore darkBefore : Nat) : List Bool → List Color
  | [] => []
  | true :: rest => lit litBefore :: paintRow lit dark (litBefore + 1) darkBefore rest
  | false :: rest => dark darkBefore :: paintRow lit dark litBefore (darkBefore + 1) rest

/-- Rows of pixels in colour. -/
def paintRows (lit dark : Paint) (litBefore darkBefore : Nat) :
    List (List Bool) → List (List Color)
  | [] => []
  | row :: rest =>
    paintRow lit dark litBefore darkBefore row ::
      paintRows lit dark (litBefore + row.count true) (darkBefore + row.count false) rest

/-- The pixels of a display, row by row. -/
def pixels (g : Grid w h) : List (List Bool) := g.rows.toList.map Vector.toList

/-- The number of pixels that are lit, or dark. -/
def count (g : Grid w h) (lit : Bool) : Nat := (pixels g).flatten.count lit

/-- A display in colour, every pixel a pixel. -/
def paint (g : Grid w h) (lit dark : Paint) : List (List Color) :=
  paintRows lit dark 0 0 (pixels g)

/-- The rows of an image of a display. -/
def image (g : Grid w h) (scale : Int) (lit dark : Paint) : List (List Color) :=
  enlarge (factor scale) ((paint g lit dark).map (enlarge (factor scale)))

/-- The rows of an image, equal neighbours packed together. -/
def packedImage (g : Grid w h) (scale : Int) (lit dark : Paint) : List (Nat × List Color) :=
  (Packed.pack (paint g lit dark)).map fun (n, row) => (n * factor scale, enlarge (factor scale) row)

/-! ### Sizes -/

/-- The number of rows, columns and channels of an image. -/
def shape (_ : Grid w h) (scale : Int) : List Nat :=
  [h * factor scale, w * factor scale, 3]

/-- The shape of an image of no rows at all. Without a row there are no columns, so that the
channels come second and are enlarged in place of them. -/
def emptyShape (scale : Int) : List Nat :=
  [0, 3 * factor scale]

/-- Whether there is an array of a shape to be had, or why not. It is not for a picture to say. -/
abbrev Allocator := List Nat → Except Refusal Unit

/-- The shape of the image of a display. The rows are repeated before the columns, each time into an
array of its own; for the factor one that is the array of the pixels again. -/
def shapeFor (alloc : Allocator) (g : Grid w h) (scale : Int) : Except Refusal (List Nat) := do
  alloc [h * factor scale, w, 3]
  alloc (shape g scale)
  return shape g scale

/-- The shape of an image of no rows at all, into an array of its own too. -/
def emptyShapeFor (alloc : Allocator) (scale : Int) : Except Refusal (List Nat) := do
  alloc (emptyShape scale)
  return emptyShape scale

/-- The factor that a host gives. One above one has to be a count of sixty-four bits, and it loses
its fraction. -/
def scaleOfValue (v : Value) : Except Refusal Int := do
  let n ← v.number
  if n.exceeds 1 then
    let k := match n with
      | .whole k => k
      | .real x => (Numeral.Binary.ofFloat x).truncated
    if (signed? 64 k).isSome then .ok k else .error .outOfRange
  else .ok 1

/-! ### Images for a host -/

/-- An image: the lengths of its axes, and its rows with equal neighbours packed together. -/
structure Raster where
  axes : List Nat
  packed : List (Nat × List Color)
  deriving DecidableEq, Repr

/-- The paints for lit pixels and for dark ones and the factor that a host gives, looked at in this
order. -/
def styleOfValues (g : Grid w h) (scale lit dark : Value) : Except Refusal (Paint × Paint × Int) := do
  let lit ← Paint.ofValue (count g true) lit
  let dark ← Paint.ofValue (count g false) dark
  return (lit, dark, ← scaleOfValue scale)

/-- The image of a display as a host asks for it. The array for its pixels comes before all else. -/
def rasterOfValues (alloc : Allocator) (g : Grid w h) (scale lit dark : Value) :
    Except Refusal Raster := do
  alloc (shape g 1)
  let (lit, dark, k) ← styleOfValues g scale lit dark
  return ⟨← shapeFor alloc g k, packedImage g k lit dark⟩

/-- The image of a display that a host describes by its rows. -/
def rasterOfRows (alloc : Allocator) (rows scale lit dark : Value) : Except Refusal Raster := do
  let ⟨_, h, g⟩ ← Grid.ofValue rows
  if h = 0 then
    alloc (emptyShape 1)
    let (_, _, k) ← styleOfValues g scale lit dark
    return ⟨← emptyShapeFor alloc k, []⟩
  else rasterOfValues alloc g scale lit dark

/-! ### Text -/

/-- The lines of a display in text, one text for a lit pixel and one for a dark one. -/
def lines (g : Grid w h) (lit dark : String) : List String :=
  g.rows.toList.map fun row => String.join (row.toList.map fun p => if p then lit else dark)

/-- A display in text, a line break between any two lines. -/
def text (g : Grid w h) (lit dark : String) : String :=
  "\n".intercalate (lines g lit dark)

/-- A display in text as a host asks for it. What is no text is refused where a pixel needs it. -/
def textOfValues (g : Grid w h) (lit dark : Value) : Except Refusal String :=
  let textFor (p : Bool) : Value → Except Refusal String
    | .string s => .ok s
    | _ => if count g p = 0 then .ok "" else .error .wrongKind
  return text g (← textFor true lit) (← textFor false dark)

/-! ### What an image shows -/

end Picture
end Chip8
