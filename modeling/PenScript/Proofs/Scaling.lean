import PenScript.Proofs.Coverage
import PenScript.Canvas

/-!
# Scaling a picture

A raster is scaled by looking, for every pixel of the canvas, at one pixel of the raster. Where that
pixel is found is a quotient that is cut to a whole number, on both axes, and its bytes are found at
an offset that is computed from it. Said as a relation, a raster scales to a canvas if each pixel of
the canvas is shown by the raster at the quotients; a canvas of given sides is determined by that.
Whatever is lost or not lost by scaling is then a matter of quotients.

## Main definitions

* `Raster.Full` — the raster has pixels, and four bytes for each of them;
* `Raster.Shows` — the pixel in some column and row has all of its bytes, and a color;
* `Raster.ScalesTo` — what a canvas shows of a raster.

## Main results

* `Raster.toCanvas_eq_ok_iff`: a full raster is scaled to the one canvas that it scales to;
* `Canvas.shows_toRaster`: the raster of a canvas shows its pixels;
* `Raster.scaling_is_nearest_and_lossless`: which rasters are scaled, to what, and that scaling by
  whole numbers can be undone.
-/

namespace PenScript

/-! ### Pixels by number -/

namespace Canvas

variable {c : Canvas} {width height x y : Nat} {f : Nat → Nat → Color}

/-- The pixel in column `x` and row `y` is kept behind the rows above and the columns before it. -/
theorem getElem?_pixels (column : x < c.width) (row : y < c.height) :
    c.pixels[y * c.width + x]? = some (c.get ⟨x, y⟩) := by
  have below := row_major_lt column row
  have place : c.index? ⟨x, y⟩ = some ⟨y * c.width + x, below⟩ :=
    index?_eq_some_iff.2 ⟨contains_natCast.2 ⟨column, row⟩, rfl⟩
  rw [get, place]
  exact Vector.getElem?_eq_getElem below

/-- A canvas that is given pixel by pixel has these pixels. -/
theorem get_ofFn (column : x < width) (row : y < height) :
    (ofFn width height f).get ⟨x, y⟩ = f x y := by
  have below : y * width + x < width * height := row_major_lt column row
  have across : (y * width + x) % width = x := Nat.mul_add_mod_of_lt column
  have down : (y * width + x) / width = y := by
    rw [Nat.mul_comm, Nat.mul_add_div (Nat.zero_lt_of_lt column), Nat.div_eq_of_lt column,
      Nat.add_zero]
  have kept : (Vector.ofFn fun i : Fin (width * height) => f (i % width) (i / width))[
      y * width + x]? = some ((ofFn width height f).get ⟨x, y⟩) :=
    getElem?_pixels (c := ofFn width height f) column row
  rw [Vector.getElem?_ofFn, dif_pos below, across, down] at kept
  exact (Option.some.inj kept).symm

/-- Canvases of the same sides are the same if they have the same pixels in all columns and rows. -/
theorem ext_natCast {c' : Canvas} (width : c.width = c'.width) (height : c.height = c'.height)
    (same : ∀ x < c.width, ∀ y < c.height, c.get ⟨x, y⟩ = c'.get ⟨x, y⟩) : c = c' := by
  refine ext_get width height fun q => ?_
  by_cases inside : c.Contains q
  · obtain ⟨x, y, column, row, rfl⟩ := exists_natCast inside
    exact same x column y row
  · have outside : ¬c'.Contains q := by rwa [Contains, ← width, ← height]
    rw [get_of_not_contains inside, get_of_not_contains outside]

end Canvas

/-! ### What a raster shows -/

namespace Raster

variable {r : Raster} {c c' : Canvas} {width height x y : Nat} {color color' : Color}

/-- The raster has a column and a row, and four bytes for each of its pixels. -/
structure Full (r : Raster) : Prop where
  wide : 1 ≤ r.width
  high : 1 ≤ r.height
  bytes : r.bytes.size = 4 * r.width * r.height

/-- The raster has a pixel in column `x` and row `y`, all four bytes of it are there, and they are
the channels of `color` in their order: red, green, blue and alpha. -/
structure Shows (r : Raster) (x y : Nat) (color : Color) : Prop where
  column : x < r.width
  row : y < r.height
  red : r.bytes[4 * (y * r.width + x)]? = some color.r
  green : r.bytes[4 * (y * r.width + x) + 1]? = some color.g
  blue : r.bytes[4 * (y * r.width + x) + 2]? = some color.b
  alpha : r.bytes[4 * (y * r.width + x) + 3]? = some color.a

/-- Every pixel of the canvas is the pixel of the raster at the quotients of its place: the sides of
the raster are to those of the canvas as the place in the raster is to that in the canvas, cut to
whole numbers. -/
def ScalesTo (r : Raster) (c : Canvas) : Prop :=
  ∀ x < c.width, ∀ y < c.height,
    r.Shows (x * r.width / c.width) (y * r.height / c.height) (c.get ⟨x, y⟩)

/-- A pixel has one color. -/
theorem Shows.unique (shows : r.Shows x y color) (shows' : r.Shows x y color') :
    color = color' := by
  have red := Option.some.inj (shows.red.symm.trans shows'.red)
  have green := Option.some.inj (shows.green.symm.trans shows'.green)
  have blue := Option.some.inj (shows.blue.symm.trans shows'.blue)
  have alpha := Option.some.inj (shows.alpha.symm.trans shows'.alpha)
  rcases color with ⟨_, _, _, _⟩
  rcases color' with ⟨_, _, _, _⟩
  rw [Color.mk.injEq]
  exact ⟨red, green, blue, alpha⟩

/-- A full raster shows the pixels that are read from it: no byte of them is missing. -/
theorem Full.shows (full : r.Full) (column : x < r.width) (row : y < r.height) :
    r.Shows x y (r.pixel x y) := by
  have below : y * r.width + x < r.width * r.height := Canvas.row_major_lt column row
  have bytes := full.bytes
  rw [Nat.mul_assoc] at bytes
  have byte (k : Nat) (channel : k < 4) :
      r.bytes[4 * (y * r.width + x) + k]? =
        some (r.bytes.getD ((y * r.width + x) * 4 + k) 0) := by
    have there : (y * r.width + x) * 4 + k < r.bytes.size := by omega
    rw [Nat.mul_comm 4, Array.getElem?_eq_getElem there, Array.getD_eq_getD_getElem?,
      Array.getElem?_eq_getElem there, Option.getD_some]
  exact ⟨column, row, byte 0 (by omega), byte 1 (by omega), byte 2 (by omega), byte 3 (by omega)⟩

/-- There are four bytes for each pixel. -/
theorem byteCount_eq (width height : Nat) : byteCount width height = 4 * width * height := by
  rw [byteCount, Nat.mul_comm, Nat.mul_assoc]

/-- The quotient of a place on the canvas is a place on the raster. -/
theorem quotient_lt {extent : Nat} (place : x < width) (some : 1 ≤ extent) :
    x * extent / width < extent := by
  refine Nat.div_lt_of_lt_mul ?_
  exact Nat.mul_lt_mul_of_pos_right place some

/-- A full raster is scaled, to a canvas of any sides. -/
theorem Full.exists_toCanvas (full : r.Full) (width height : Nat) :
    ∃ c, r.toCanvas width height = .ok c ∧ c.width = width ∧ c.height = height ∧
      r.ScalesTo c := by
  have wide := full.wide
  have high := full.high
  have bytes : r.bytes.size = byteCount r.width r.height := by rw [byteCount_eq, full.bytes]
  rw [toCanvas, if_neg (by omega), if_neg (not_not_intro bytes)]
  refine ⟨_, rfl, rfl, rfl, fun x (column : x < width) y (row : y < height) => ?_⟩
  rw [Canvas.get_ofFn column row]
  exact full.shows (quotient_lt column wide) (quotient_lt row high)

/-- The sides and the raster determine the canvas. -/
theorem ScalesTo.unique (scales : r.ScalesTo c) (scales' : r.ScalesTo c')
    (width : c.width = c'.width) (height : c.height = c'.height) : c = c' := by
  refine Canvas.ext_natCast width height fun x column y row => ?_
  have shows' := scales' x (width ▸ column) y (height ▸ row)
  rw [← width, ← height] at shows'
  exact (scales x column y row).unique shows'

/-- **A full raster is scaled** to the one canvas that it scales to. -/
theorem toCanvas_eq_ok_iff (full : r.Full) :
    r.toCanvas width height = .ok c ↔ c.width = width ∧ c.height = height ∧ r.ScalesTo c := by
  obtain ⟨c', done, wide, high, scales⟩ := full.exists_toCanvas width height
  rw [done, Except.ok.injEq]
  constructor
  · rintro rfl
    exact ⟨wide, high, scales⟩
  · rintro ⟨wide', high', scales'⟩
    exact scales.unique scales' (wide.trans wide'.symm) (high.trans high'.symm)

/-- Any other raster is refused, for the first reason that there is. -/
theorem toCanvas_of_not_full (broken : ¬r.Full) (width height : Nat) :
    r.toCanvas width height =
      .error (if r.width = 0 ∨ r.height = 0 then .empty
        else .wrongSize r.bytes.size r.width r.height) := by
  rw [toCanvas]
  by_cases empty : r.width = 0 ∨ r.height = 0
  · rw [if_pos empty, if_pos empty]
  · have wrong : r.bytes.size ≠ byteCount r.width r.height := by
      intro bytes
      rw [byteCount_eq] at bytes
      exact broken ⟨by omega, by omega, bytes⟩
    rw [if_neg empty, if_neg empty, if_pos wrong]

end Raster

/-! ### The raster of a canvas -/

/-- The channels in the order of their bytes. -/
def Color.channels (color : Color) : List UInt8 :=
  [color.r, color.g, color.b, color.a]

/-- Colors have four channels each. -/
theorem Color.length_flatMap_channels (colors : List Color) :
    (colors.flatMap channels).length = 4 * colors.length := by
  induction colors with
  | nil => rfl
  | cons color colors ih =>
      rw [List.flatMap_cons, List.length_append, ih, List.length_cons, channels]
      simp only [List.length_cons, List.length_nil]
      omega

/-- The channels of the color with number `i` are found behind those of all colors before it. -/
theorem Color.getElem?_flatMap_channels (colors : List Color) (i : Nat) {k : Nat} (h : k < 4) :
    (colors.flatMap channels)[4 * i + k]? = colors[i]?.bind fun color => color.channels[k]? := by
  induction colors generalizing i with
  | nil => rfl
  | cons color colors ih =>
      have four : color.channels.length = 4 := rfl
      rw [List.flatMap_cons]
      rcases i with _ | i
      · rw [List.getElem?_append_left (by omega), Nat.mul_zero, Nat.zero_add]
        rfl
      · have behind : 4 * (i + 1) + k - 4 = 4 * i + k := by omega
        rw [List.getElem?_append_right (by omega), four, behind, ih]
        rfl

namespace Canvas

variable {c : Canvas} {x y : Nat} {color : Color}

/-- A canvas gives a raster of its width. -/
@[simp] theorem width_toRaster (c : Canvas) : c.toRaster.width = c.width := rfl

/-- A canvas gives a raster of its height. -/
@[simp] theorem height_toRaster (c : Canvas) : c.toRaster.height = c.height := rfl

/-- The bytes of a canvas are the channels of its colors in turn. -/
theorem toList_toRaster (c : Canvas) :
    c.toRaster.bytes.toList = c.pixels.toList.flatMap Color.channels :=
  Array.toList_flatMap

/-- The raster of a canvas is full. -/
theorem full_toRaster (wide : 1 ≤ c.width) (high : 1 ≤ c.height) : c.toRaster.Full where
  wide := wide
  high := high
  bytes := by
    rw [← Array.length_toList, toList_toRaster, Color.length_flatMap_channels,
      Vector.length_toList, Nat.mul_assoc]
    rfl

/-- **The raster of a canvas shows its pixels.** -/
theorem shows_toRaster (column : x < c.width) (row : y < c.height) :
    c.toRaster.Shows x y (c.get ⟨x, y⟩) := by
  have byte (k : Nat) (channel : k < 4) :
      c.toRaster.bytes[4 * (y * c.width + x) + k]? = (c.get ⟨x, y⟩).channels[k]? := by
    rw [← Array.getElem?_toList, toList_toRaster, Color.getElem?_flatMap_channels _ _ channel,
      Vector.getElem?_toList, getElem?_pixels column row, Option.bind_some]
  exact ⟨column, row, byte 0 (by omega), byte 1 (by omega), byte 2 (by omega), byte 3 (by omega)⟩

/-- Scaling a canvas to its own sides changes nothing. -/
theorem toRaster_scalesTo (c : Canvas) : c.toRaster.ScalesTo c := by
  intro x column y row
  have across : x * c.width / c.width = x := Nat.mul_div_cancel x (Nat.zero_lt_of_lt column)
  have down : y * c.height / c.height = y := Nat.mul_div_cancel y (Nat.zero_lt_of_lt row)
  rw [width_toRaster, height_toRaster, across, down]
  exact shows_toRaster column row

/-- A place of the canvas is found again at the start of its block. -/
theorem quotient_of_enlarged {k n : Nat} (place : x < n) : x * (k * n) / n = k * x := by
  rw [← Nat.mul_assoc, Nat.mul_div_cancel _ (Nat.zero_lt_of_lt place), Nat.mul_comm]

/-- The start of a block is taken from its place of the canvas. -/
theorem quotient_of_block {k n : Nat} (some : 1 ≤ k) (place : x < n) :
    k * x * n / (k * n) = x := by
  rw [Nat.mul_assoc, Nat.mul_div_mul_left _ _ some,
    Nat.mul_div_cancel x (Nat.zero_lt_of_lt place)]

/-- **Enlarging by whole numbers is undone** by scaling back: every pixel has become a block, and
the first pixel of the block is the one that is looked at. -/
theorem scalesTo_of_enlarged {large : Canvas} {k l : Nat} (some : 1 ≤ k) (some' : 1 ≤ l)
    (width : large.width = k * c.width) (height : large.height = l * c.height)
    (enlarged : c.toRaster.ScalesTo large) : large.toRaster.ScalesTo c := by
  intro x column y row
  have column' : k * x < large.width := by
    rw [width]
    exact Nat.mul_lt_mul_of_pos_left column some
  have row' : l * y < large.height := by
    rw [height]
    exact Nat.mul_lt_mul_of_pos_left row some'
  have block : c.toRaster.Shows x y (large.get ⟨(k * x : Nat), (l * y : Nat)⟩) := by
    have shows := enlarged (k * x) column' (l * y) row'
    rwa [width, height, width_toRaster, height_toRaster, quotient_of_block some column,
      quotient_of_block some' row] at shows
  rw [width_toRaster, height_toRaster, width, height, quotient_of_enlarged column,
    quotient_of_enlarged row, (shows_toRaster column row).unique block]
  exact shows_toRaster column' row'

end Canvas

/-- **Scaling takes the nearest pixel, and loses nothing where it can.** Every raster that has
pixels, and four bytes for each of them, is scaled to every size: the canvas has the sides that were
asked for, and its pixels are those of the raster at the quotients of their places, where no byte is
missing. All other rasters are refused. A canvas is the same again behind writing its bytes and
scaling them to its own sides; and behind enlarging it by whole numbers and scaling it back. -/
theorem Raster.scaling_is_nearest_and_lossless :
    (∀ r : Raster, r.Full → ∀ width height : Nat, ∃ c, r.toCanvas width height = .ok c ∧
      c.width = width ∧ c.height = height ∧ ∀ x < width, ∀ y < height,
        r.Shows (x * r.width / width) (y * r.height / height) (c.get ⟨x, y⟩)) ∧
    (∀ r : Raster, ¬r.Full → ∀ width height : Nat, r.toCanvas width height =
      .error (if r.width = 0 ∨ r.height = 0 then .empty
        else .wrongSize r.bytes.size r.width r.height)) ∧
    ∀ c : Canvas, 1 ≤ c.width → 1 ≤ c.height →
      c.toRaster.toCanvas c.width c.height = .ok c ∧
      ∀ k l : Nat, 1 ≤ k → 1 ≤ l →
        ∃ large, c.toRaster.toCanvas (k * c.width) (l * c.height) = .ok large ∧
          large.toRaster.toCanvas c.width c.height = .ok c := by
  refine ⟨fun r full width height => ?_, fun r => toCanvas_of_not_full, fun c wide high => ?_⟩
  · obtain ⟨c, done, rfl, rfl, scales⟩ := full.exists_toCanvas width height
    exact ⟨c, done, rfl, rfl, scales⟩
  · have full := Canvas.full_toRaster wide high
    refine ⟨(toCanvas_eq_ok_iff full).2 ⟨rfl, rfl, c.toRaster_scalesTo⟩, fun k l some some' => ?_⟩
    obtain ⟨large, done, width, height, enlarged⟩ :=
      full.exists_toCanvas (k * c.width) (l * c.height)
    have wide' : 1 ≤ large.width := width ▸ Nat.mul_pos some wide
    have high' : 1 ≤ large.height := height ▸ Nat.mul_pos some' high
    refine ⟨large, done, (toCanvas_eq_ok_iff (Canvas.full_toRaster wide' high')).2 ⟨rfl, rfl, ?_⟩⟩
    exact Canvas.scalesTo_of_enlarged some some' width height enlarged

/-- Three columns: red, green, and a blue that shines through. -/
def Raster.stripes : Raster :=
  ⟨3, 1, #[255, 0, 0, 255, 0, 255, 0, 255, 0, 0, 255, 128]⟩

/-- In two columns and two rows the three columns are red and green. A white pixel beside a black
one is found again behind enlarging both to blocks of three columns and two rows. -/
theorem Raster.stripes_are_scaled :
    (∃ c, stripes.toCanvas 2 2 = .ok c ∧ c.get ⟨0, 1⟩ = .rgb 255 0 0 ∧
      c.get ⟨1, 1⟩ = .rgb 0 255 0) ∧
    ∃ large, ((Canvas.blank 2 1).set ⟨1, 0⟩ .black).toRaster.toCanvas 6 2 = .ok large ∧
      large.toRaster.toCanvas 2 1 = .ok ((Canvas.blank 2 1).set ⟨1, 0⟩ .black) := by
  obtain ⟨scaled, -, lossless⟩ := scaling_is_nearest_and_lossless
  constructor
  · obtain ⟨c, done, -, -, shows⟩ := scaled stripes ⟨by decide, by decide, rfl⟩ 2 2
    have left := shows 0 (by decide) 1 (by decide)
    have right := shows 1 (by decide) 1 (by decide)
    refine ⟨c, done, left.unique ?_, right.unique ?_⟩
    · exact ⟨by decide, by decide, rfl, rfl, rfl, rfl⟩
    · exact ⟨by decide, by decide, rfl, rfl, rfl, rfl⟩
  · obtain ⟨-, enlarged⟩ := lossless ((Canvas.blank 2 1).set ⟨1, 0⟩ .black) (by decide) (by decide)
    exact enlarged 3 2 (by decide) (by decide)

end PenScript
