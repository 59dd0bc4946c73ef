import PenScript.Plane
import PenScript.Text

/-!
# Colors, canvases and rasters

Colors are straight (not premultiplied) RGBA colors with one byte a channel. The color strings of
the language are one of nine names, or `#` and 3, 4, 6 or 8 hexadecimal digits in the order alpha,
red, green, blue.

A canvas is a rectangle of pixels, kept row by row. Reading outside of it gives the invisible
color, and writing outside of it does nothing.

A raster is a picture as bytes: four bytes a pixel, red, green, blue and alpha, row by row. A
canvas of any size is made of a raster by taking, for each of its pixels, the nearest pixel above
and to the left of the corresponding place.

## Main definitions

* `Color.onto` — one color laid over another, channels cut to whole bytes;
* `Color.parse?` — reads a color string, blind to case and to blanks around it;
* `Color.text` — the written form `#RRGGBB`, with the alpha in front unless it is full;
* `Canvas.index?` — where the pixel at a point is kept, if it is on the canvas;
* `Canvas.get`, `Canvas.set`, `Canvas.blend` — reading, writing, laying a color over a pixel;
* `Canvas.count` — how many pixels of a region have a color;
* `Raster.toCanvas`, `Canvas.toRaster` — between rasters and canvases.

## Main results

* `Canvas.get_set` — a write is seen at its own point and nowhere else.
-/

namespace PenScript

/-! ### Colors -/

/-- A color with one byte a channel. The last one is the opacity: 0 is invisible and 255 hides what
is below. -/
structure Color where
  r : UInt8
  g : UInt8
  b : UInt8
  a : UInt8
deriving DecidableEq, Repr

namespace Color

/-- An opaque color. -/
def rgb (r g b : UInt8) : Color := ⟨r, g, b, 255⟩

/-- Opaque black. -/
def black : Color := rgb 0 0 0

/-- Opaque white. -/
def white : Color := rgb 255 255 255

/-- No color at all. -/
def transparent : Color := ⟨0, 0, 0, 0⟩

instance : Inhabited Color := ⟨black⟩

/-! #### Laying one color over another -/

/-- The weighted mean of two channels, the upper one having weight `alpha` out of 255. -/
def mix (alpha upper lower : Nat) : UInt8 :=
  UInt8.ofNat ((upper * alpha + lower * (255 - alpha)) / 255)

/-- The color `upper` laid over `lower`. An opaque color hides what is below it and an invisible
one leaves it alone. -/
def onto (upper lower : Color) : Color :=
  if upper.a = 255 then upper
  else if upper.a = 0 then lower
  else
    let alpha := upper.a.toNat
    { r := mix alpha upper.r.toNat lower.r.toNat
      g := mix alpha upper.g.toNat lower.g.toNat
      b := mix alpha upper.b.toNat lower.b.toNat
      a := UInt8.ofNat (alpha + lower.a.toNat * (255 - alpha) / 255) }

/-! #### Color strings -/

/-- The named colors. -/
def names : List (String × Color) :=
  [("red", rgb 255 0 0), ("green", rgb 0 255 0), ("blue", rgb 0 0 255),
   ("yellow", rgb 255 255 0), ("orange", rgb 255 165 0), ("purple", rgb 128 0 128),
   ("black", black), ("white", white), ("transparent", transparent)]

/-- The byte with high digit `hi` and low digit `lo`. -/
def joined (hi lo : Nat) : UInt8 :=
  UInt8.ofNat (16 * hi + lo)

/-- The color of a list of hexadecimal digits. The short forms double each digit, and the forms
without alpha are opaque. -/
def ofDigits? : List Nat → Option Color
  | [r, g, b] => some (rgb (joined r r) (joined g g) (joined b b))
  | [a, r, g, b] => some ⟨joined r r, joined g g, joined b b, joined a a⟩
  | [r, r', g, g', b, b'] => some (rgb (joined r r') (joined g g') (joined b b'))
  | [a, a', r, r', g, g', b, b'] => some ⟨joined r r', joined g g', joined b b', joined a a'⟩
  | _ => none

/-- The color of a string in lower case without blanks around it. -/
def ofNormal? : List Char → Option Color
  | '#' :: digits => (digits.mapM Hex.value?).bind ofDigits?
  | name => names.lookup (String.ofList name)

/-- The color that a string names. -/
def parse? (s : String) : Option Color :=
  ofNormal? ((trimBlanks s.toList).map Char.toLower)

/-- The written form of a color: `#RRGGBB` if it is opaque and `#AARRGGBB` otherwise. -/
def text (c : Color) : String :=
  let channels := Hex.byte c.r ++ Hex.byte c.g ++ Hex.byte c.b
  String.ofList ('#' :: if c.a = 255 then channels else Hex.byte c.a ++ channels)

/-- What is said of a string that names no color. -/
def refusal (s : String) : String :=
  "invalid color string '" ++ s ++ "'"

end Color

/-! ### Canvases -/

/-- A rectangle of pixels. -/
structure Canvas where
  width : Nat
  height : Nat
  pixels : Vector Color (width * height)

namespace Canvas

/-- The canvas whose pixel in column `x` and row `y` is `f x y`. -/
def ofFn (width height : Nat) (f : Nat → Nat → Color) : Canvas :=
  ⟨width, height, .ofFn fun i => f (i.val % width) (i.val / width)⟩

/-- A canvas of one color. -/
def filled (width height : Nat) (color : Color) : Canvas :=
  ⟨width, height, .replicate _ color⟩

/-- A white canvas. -/
def blank (width height : Nat) : Canvas :=
  filled width height .white

/-! #### Pixels -/

/-- The point is on the canvas. -/
def Contains (c : Canvas) (p : Point) : Prop :=
  (0 ≤ p.x ∧ p.x < c.width) ∧ 0 ≤ p.y ∧ p.y < c.height

instance (c : Canvas) (p : Point) : Decidable (c.Contains p) :=
  inferInstanceAs (Decidable (_ ∧ _))

/-- Column `x` of row `y` has its own place among the pixels. -/
theorem row_major_lt {width height x y : Nat} (hx : x < width) (hy : y < height) :
    y * width + x < width * height := by
  have := Nat.mul_le_mul_right width (Nat.succ_le_of_lt hy)
  rw [Nat.succ_mul] at this
  rw [Nat.mul_comm width height]
  omega

/-- Where the pixel at a point is kept, if the point is on the canvas. -/
def index? (c : Canvas) (p : Point) : Option (Fin (c.width * c.height)) :=
  if h : c.Contains p then
    some ⟨p.y.toNat * c.width + p.x.toNat, by
      obtain ⟨⟨_, _⟩, _, _⟩ := h
      exact row_major_lt (by omega) (by omega)⟩
  else none

/-- The color at a point; outside of the canvas it is the invisible one. -/
def get (c : Canvas) (p : Point) : Color :=
  match c.index? p with
  | some i => c.pixels[i]
  | none => .transparent

/-- Writes a color at a point. -/
def set (c : Canvas) (p : Point) (color : Color) : Canvas :=
  match c.index? p with
  | some i => { c with pixels := c.pixels.set i color }
  | none => c

/-- Lays a color over the pixel at a point. -/
def blend (c : Canvas) (p : Point) (color : Color) : Canvas :=
  match c.index? p with
  | some i => { c with pixels := c.pixels.set i (color.onto c.pixels[i]) }
  | none => c

/-- Writes a color everywhere. -/
def clear (c : Canvas) (color : Color) : Canvas :=
  filled c.width c.height color

/-! #### Regions -/

/-- The points of the canvas in the columns `xs` and the rows `ys`, row by row. -/
def region (c : Canvas) (xs ys : Span) : List Point :=
  Span.grid (xs.clip c.width) (ys.clip c.height)

/-- How many pixels from column `x` and row `y` on, `w` columns wide and `h` rows high, have a
color. -/
def count (c : Canvas) (color : Color) (x y w h : Int) : Nat :=
  (c.region ⟨x, x + w⟩ ⟨y, y + h⟩).countP fun p => c.get p = color

/-! #### What operations do to pixels -/

/-- Laying a color leaves the number of columns. -/
@[simp] theorem width_blend (c : Canvas) (p : Point) (color : Color) :
    (c.blend p color).width = c.width := by
  unfold blend
  split <;> rfl

/-- Laying a color leaves the number of rows. -/
@[simp] theorem height_blend (c : Canvas) (p : Point) (color : Color) :
    (c.blend p color).height = c.height := by
  unfold blend
  split <;> rfl

/-- Pixels are kept in row-major order. -/
theorem index?_eq_some_iff {c : Canvas} {p : Point} {i : Fin (c.width * c.height)} :
    c.index? p = some i ↔ c.Contains p ∧ p.y.toNat * c.width + p.x.toNat = i.val := by
  unfold index?
  split
  · next h => simp [h, Fin.ext_iff]
  · next h => simp [h]

/-- Exactly the points outside of the canvas are kept nowhere. -/
theorem index?_eq_none_iff {c : Canvas} {p : Point} : c.index? p = none ↔ ¬c.Contains p := by
  unfold index?
  split <;> simp_all

/-- Different points of the canvas are kept at different places. -/
theorem index?_injective {c : Canvas} {p q : Point} {i : Fin (c.width * c.height)}
    (hp : c.index? p = some i) (hq : c.index? q = some i) : p = q := by
  obtain ⟨⟨⟨_, _⟩, _, _⟩, hp⟩ := index?_eq_some_iff.1 hp
  obtain ⟨⟨⟨_, _⟩, _, _⟩, hq⟩ := index?_eq_some_iff.1 hq
  have hw : 0 < c.width := by omega
  have hx (x y : Nat) (h : x < c.width) : (y * c.width + x) % c.width = x := by
    rw [Nat.mul_comm, Nat.mul_add_mod, Nat.mod_eq_of_lt h]
  have hy (x y : Nat) (h : x < c.width) : (y * c.width + x) / c.width = y := by
    rw [Nat.mul_comm, Nat.mul_add_div hw, Nat.div_eq_of_lt h, Nat.add_zero]
  have ex : p.x.toNat = q.x.toNat := by
    rw [← hx p.x.toNat p.y.toNat (by omega), hp, ← hq, hx _ _ (by omega)]
  have ey : p.y.toNat = q.y.toNat := by
    rw [← hy p.x.toNat p.y.toNat (by omega), hp, ← hq, hy _ _ (by omega)]
  have : p.x = q.x := by omega
  have : p.y = q.y := by omega
  cases p
  cases q
  simp_all

/-- Outside of the canvas every pixel reads as invisible. -/
theorem get_of_not_contains {c : Canvas} {p : Point} (h : ¬c.Contains p) :
    c.get p = .transparent := by
  simp [get, index?_eq_none_iff.2 h]

/-- A write is seen at its own point, if that is on the canvas, and nowhere else. -/
theorem get_set (c : Canvas) (p q : Point) (color : Color) :
    (c.set p color).get q = if c.Contains p ∧ p = q then color else c.get q := by
  cases hp : c.index? p with
  | none => simp [set, hp, index?_eq_none_iff.1 hp]
  | some i =>
    have inside := (index?_eq_some_iff.1 hp).1
    have written : c.set p color = { c with pixels := c.pixels.set i color } := by simp [set, hp]
    cases hq : c.index? q with
    | none =>
      have outside := index?_eq_none_iff.1 hq
      have hne : p ≠ q := fun h => outside (h ▸ inside)
      rw [if_neg (by simp [hne]), get_of_not_contains outside, written]
      exact get_of_not_contains (c := { c with pixels := c.pixels.set i color }) outside
    | some j =>
      have old : c.get q = c.pixels[j] := by simp [get, hq]
      have new : ({ c with pixels := c.pixels.set i color } : Canvas).get q
          = (c.pixels.set i color)[j] := by
        have hq' : ({ c with pixels := c.pixels.set i color } : Canvas).index? q = some j := hq
        simp [get, hq']
      rw [written, new, old]
      by_cases h : p = q
      · subst h
        obtain rfl : i = j := Option.some.inj (hp.symm.trans hq)
        simp [inside]
      · have : i ≠ j := fun e => h (index?_injective hp (e ▸ hq))
        have : i.val ≠ j.val := fun e => this (Fin.ext e)
        simp [h, this]

/-- Laying a color over a pixel writes the mixed color. -/
theorem blend_eq_set (c : Canvas) (p : Point) (color : Color) :
    c.blend p color = c.set p (color.onto (c.get p)) := by
  unfold blend set get
  split <;> simp_all

/-- A region lists the points of the canvas in its columns and rows. -/
@[simp] theorem mem_region {c : Canvas} {xs ys : Span} {p : Point} :
    p ∈ c.region xs ys ↔ (p.x ∈ xs ∧ p.y ∈ ys) ∧ c.Contains p := by
  simp only [region, Span.mem_grid, Span.mem_clip, Contains]
  constructor
  · rintro ⟨⟨hx, hx'⟩, hy, hy'⟩
    exact ⟨⟨hx, hy⟩, hx', hy'⟩
  · rintro ⟨⟨hx, hy⟩, hx', hy'⟩
    exact ⟨⟨hx, hx'⟩, hy, hy'⟩

end Canvas

/-! ### Rasters -/

/-- A picture as bytes, four bytes a pixel, row by row. -/
structure Raster where
  width : Nat
  height : Nat
  bytes : Array UInt8
deriving DecidableEq, Repr

/-- Why a raster shows no picture. -/
inductive RasterError where
  | empty
  | wrongSize (found width height : Nat)
deriving DecidableEq, Repr

namespace Raster

/-- The number of bytes of a picture of some size. -/
def byteCount (width height : Nat) : Nat :=
  width * height * 4

/-- The color of the pixel in column `x` and row `y`. -/
def pixel (r : Raster) (x y : Nat) : Color :=
  let i := (y * r.width + x) * 4
  ⟨r.bytes.getD i 0, r.bytes.getD (i + 1) 0, r.bytes.getD (i + 2) 0, r.bytes.getD (i + 3) 0⟩

/-- The raster scaled to `width` columns and `height` rows. -/
def toCanvas (r : Raster) (width height : Nat) : Except RasterError Canvas :=
  if r.width = 0 ∨ r.height = 0 then .error .empty
  else if r.bytes.size ≠ byteCount r.width r.height then
    .error (.wrongSize r.bytes.size r.width r.height)
  else .ok (.ofFn width height fun x y => r.pixel (x * r.width / width) (y * r.height / height))

end Raster

/-- The wording of a raster error. -/
def RasterError.message : RasterError → String
  | empty => "Background image is empty."
  | wrongSize found w h =>
    "Background raster has " ++ toString found ++ " bytes, expected "
      ++ toString (Raster.byteCount w h) ++ " for " ++ toString w ++ "x" ++ toString h ++ " pixels."

/-- The bytes of a canvas. -/
def Canvas.toRaster (c : Canvas) : Raster where
  width := c.width
  height := c.height
  bytes := c.pixels.toArray.flatMap fun p => #[p.r, p.g, p.b, p.a]

end PenScript
