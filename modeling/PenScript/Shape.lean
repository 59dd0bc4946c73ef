import PenScript.Canvas

/-!
# Brushes, pens and shapes

What a program draws with, and what it draws. A brush is a square around the point where it is put
down. Putting it down at several points covers pixels, and a pixel that is covered several times
counts once, at the first time. The pen is what a program moves over the canvas: a place, a color, a
brush, and whether shapes are filled. It may leave the canvas.

* A stroke is a run of points in one direction. It may be longer than any canvas, so only the steps
  that a brush of some size can show on the canvas are listed; the others are never visited.
* The outline of a circle is found by the midpoint method: one eighth of the circle is walked column
  by column with a whole-number decision variable, and the other seven eighths are its reflections.
  The inside of a circle is all points no further than the radius from the center.
* The outline of a rectangle is made of four strokes around it: along the top, down the right side,
  back along the bottom and up the left side. The far corner stays within the range of integers. The
  inside is all points between the sides.
* The region of a point is everything that can be reached from it by steps to the four neighbours
  through pixels of its own color. It is searched depth first: what was seen is marked, and every
  pixel is marked at most once.

The points of shapes are computed over unbounded integers. Whether they are in range is asked when a
figure is drawn, and whether a brush stays in range when it is put down.

## Main definitions

* `Brush` — the size of a brush, a positive odd number;
* `Canvas.covered` — the pixels of a canvas under a brush that is put down at some points;
* `Canvas.coat` — those of them that are painted before the brush leaves the range;
* `Stroke.visible` — the points from which a brush reaches the canvas, in order;
* `Circle.outline`, `Circle.disc` — the points of a circle;
* `Rectangle.outline`, `Rectangle.inside` — the points of a rectangle;
* `Flood.region` — the region around a point, each pixel once.
-/

namespace PenScript

/-! ### Brushes -/

/-- The size of a brush: a positive odd number, so that there is a pixel in the middle. -/
structure Brush where
  size : Nat
  odd : size % 2 = 1
deriving DecidableEq, Repr

namespace Brush

/-- The brush of one pixel. -/
def single : Brush := ⟨1, rfl⟩

instance : Inhabited Brush := ⟨single⟩

/-- The largest brush that is no larger than asked for, and the brush of one pixel if there is
none. -/
def ofSize (n : Int) : Brush :=
  ⟨2 * ((n - 1) / 2).toNat + 1, by omega⟩

/-- The points under a brush of some size, row by row. -/
def square (p : Point) (size : Nat) : List Point :=
  Span.grid (.around p.x (size / 2)) (.around p.y (size / 2))

/-- A brush of some size that is put down at a point stays in range. -/
def Fits (size : Nat) (p : Point) : Prop :=
  p.HasRoom ((size / 2 : Nat) : Int)

instance (size : Nat) (p : Point) : Decidable (Fits size p) :=
  inferInstanceAs (Decidable (p.HasRoom _))

end Brush

/-- What is painted: some pixels in order, and whether that is all of it. Painting is lost behind
pixels that are not all. -/
structure Coat where
  pixels : List Point
  whole : Bool

namespace Canvas

/-- The pixels of the canvas under a brush, row by row. -/
def footprint (c : Canvas) (size : Nat) (p : Point) : List Point :=
  c.region (.around p.x (size / 2)) (.around p.y (size / 2))

/-- Collects behind `found` the points that are on the canvas and not marked in `seen`, each one
at its first occurrence. -/
def keepNew (c : Canvas) (seen : Vector Bool (c.width * c.height)) (found : Array Point) :
    List Point → Array Point
  | [] => found
  | p :: rest =>
    match c.index? p with
    | none => c.keepNew seen found rest
    | some i =>
      if seen[i] then c.keepNew seen found rest
      else c.keepNew (seen.set i true) (found.push p) rest

/-- The pixels of the canvas that a brush covers when it is put down at `centers`, each one once,
in the order in which they are covered first. -/
def covered (c : Canvas) (centers : List Point) (size : Nat) : List Point :=
  (c.keepNew (.replicate _ false) #[] (centers.flatMap (c.footprint size))).toList

/-- What a brush paints that is put down at `centers` one after the other, up to the first one where
it does not stay in range. -/
def coat (c : Canvas) (centers : List Point) (size : Nat) : Coat :=
  let (reached, beyond) := centers.span fun p => Brush.Fits size p
  ⟨c.covered reached size, beyond.isEmpty⟩

end Canvas

/-! ### The pen -/

/-- The pen of a program. -/
structure Pen where
  x : Integer := .zero
  y : Integer := .zero
  color : Color := .black
  brush : Brush := .single
  filling : Bool := false
deriving DecidableEq, Repr

namespace Pen

/-- Where the pen is. -/
def point (pen : Pen) : Point :=
  ⟨pen.x.val, pen.y.val⟩

/-- Moves the pen. -/
def moveTo (pen : Pen) (x y : Integer) : Pen :=
  { pen with x, y }

/-- Takes the brush for a size. -/
def setSize (pen : Pen) (n : Integer) : Pen :=
  { pen with brush := .ofSize n.val }

end Pen

/-! ### Strokes -/

/-- The points `start`, one step further, and so on: `steps` points in all. -/
structure Stroke where
  start : Point
  heading : Heading
  steps : Int
deriving DecidableEq, Repr

namespace Stroke

/-- The point after `i` steps. -/
def point (s : Stroke) (i : Int) : Point :=
  s.heading.stepsFrom s.start i

/-- The steps of one coordinate, out of the first `steps` ones from `start` on, that stay within
`margin` of the numbers between zero and `extent`. -/
def visibleSteps (start : Int) (sign : Sign) (steps : Int) (extent margin : Nat) : Span :=
  match sign with
  | .zero => if -margin ≤ start ∧ start < extent + margin then ⟨0, steps⟩ else .empty
  | .pos => Span.inter ⟨0, steps⟩ ⟨-margin - start, extent + margin - start⟩
  | .neg => Span.inter ⟨0, steps⟩ ⟨start - extent - margin + 1, start + margin + 1⟩

/-- The points of a stroke from which a brush of some size reaches the canvas, in order. -/
def visible (s : Stroke) (c : Canvas) (size : Nat) : List Point :=
  let margin := size / 2
  let xs := visibleSteps s.start.x s.heading.dx s.steps c.width margin
  let ys := visibleSteps s.start.y s.heading.dy s.steps c.height margin
  (xs.inter ys).toList.map s.point

/-- The number of steps after which a stroke can pass a point. -/
def stepsTo (s : Stroke) (p : Point) : Int :=
  if s.heading.dx = .zero then s.heading.dy.toInt * (p.y - s.start.y)
  else s.heading.dx.toInt * (p.x - s.start.x)

/-- The point is one of the points of the stroke. -/
def Covers (s : Stroke) (p : Point) : Prop :=
  (0 ≤ s.stepsTo p ∧ s.stepsTo p < s.steps) ∧ s.point (s.stepsTo p) = p

instance (s : Stroke) (p : Point) : Decidable (s.Covers p) :=
  inferInstanceAs (Decidable (_ ∧ _))

end Stroke

/-! ### Circles -/

namespace Circle

/-- The points at `(x, y)` from the center and their reflections, each one once. -/
def octants (center : Point) (x y : Int) : List Point :=
  let images (dx dy : Int) : List Point :=
    [⟨center.x + dx, center.y + dy⟩, ⟨center.x - dx, center.y + dy⟩,
     ⟨center.x + dx, center.y - dy⟩, ⟨center.x - dx, center.y - dy⟩]
  (images x y ++ images y x).eraseDups

/-- Walks one eighth of a circle from `(x, y)` on, `d` being the decision variable, and collects
the points of all eighths behind `points`. -/
def walk (center : Point) (x y d : Int) (points : Array Point) : Array Point :=
  if x ≤ y then
    let points := points ++ octants center x y
    if 0 < d then walk center (x + 1) (y - 1) (d + 4 * (x - y + 2) + 10) points
    else walk center (x + 1) y (d + 4 * (x + 1) + 6) points
  else points
termination_by (y + 1 - x).toNat

/-- The points of the outline of a circle, each one once. -/
def outline (center : Point) (radius : Int) : List Point :=
  (walk center 0 radius (3 - 2 * radius) #[]).toList

/-- The points of a canvas that are no further than `radius` from the center, row by row. -/
def disc (c : Canvas) (center : Point) (radius : Int) : List Point :=
  (c.region ⟨center.x - radius, center.x + radius + 1⟩
    ⟨center.y - radius, center.y + radius + 1⟩).filter fun p =>
      (p.x - center.x) * (p.x - center.x) + (p.y - center.y) * (p.y - center.y)
        ≤ radius * radius

end Circle

/-! ### Rectangles -/

namespace Rectangle

/-- The four sides of a rectangle, clockwise from its top left corner. -/
def sides (corner : Point) (width height : Int) : List Stroke :=
  let right := (Integer.saturate (corner.x + (width - 1))).val
  let bottom := (Integer.saturate (corner.y + (height - 1))).val
  [⟨corner, ⟨.pos, .zero⟩, width⟩,
   ⟨⟨right, corner.y⟩, ⟨.zero, .pos⟩, height⟩,
   ⟨⟨right, bottom⟩, ⟨.neg, .zero⟩, width⟩,
   ⟨⟨corner.x, bottom⟩, ⟨.zero, .neg⟩, height⟩]

/-- The visible points of strokes one after the other. A stroke leaves out what an earlier one has
covered. -/
def trace (c : Canvas) (size : Nat) (earlier : List Stroke) : List Stroke → List Point
  | [] => []
  | s :: rest =>
    (s.visible c size).filter (fun p => !earlier.any fun e => e.Covers p)
      ++ trace c size (s :: earlier) rest

/-- The points of the outline of a rectangle from which a brush of some size reaches the canvas,
each one once. -/
def outline (c : Canvas) (corner : Point) (width height : Int) (size : Nat) : List Point :=
  trace c size [] (sides corner width height)

/-- The points of a canvas inside a rectangle, row by row. -/
def inside (c : Canvas) (corner : Point) (width height : Int) : List Point :=
  c.region ⟨corner.x, corner.x + width⟩ ⟨corner.y, corner.y + height⟩

end Rectangle

/-! ### Flooding -/

namespace Flood

/-- The four neighbours of a point in the order in which they are visited. -/
def neighbours (p : Point) : List Point :=
  [⟨p.x, p.y - 1⟩, ⟨p.x, p.y + 1⟩, ⟨p.x - 1, p.y⟩, ⟨p.x + 1, p.y⟩]

/-- Visits the points of a stack and all that can be reached from them through pixels of color
`target` that are not marked in `seen`, and collects them behind `found`. -/
def search (c : Canvas) (target : Color) (stack : List Point)
    (seen : Vector Bool (c.width * c.height)) (found : Array Point) : Array Point :=
  match stack with
  | [] => found
  | p :: rest =>
    match c.index? p with
    | none => search c target rest seen found
    | some i =>
      if _ : seen[i] = false ∧ c.pixels[i] = target then
        search c target (neighbours p ++ rest) (seen.set i true) (found.push p)
      else search c target rest seen found
termination_by (seen.count false, stack.length)
decreasing_by
  · exact Prod.Lex.right _ (Nat.lt_succ_self _)
  · next h =>
    have marked : seen[i.val] = false := h.1
    have : 0 < seen.count false := Vector.count_pos_iff.2 (marked ▸ Vector.getElem_mem _)
    have one_less : (seen.set i true).count false = seen.count false - 1 := by
      rw [Vector.count_set, marked]
      rfl
    exact Prod.Lex.left _ _ (by omega)
  · exact Prod.Lex.right _ (Nat.lt_succ_self _)

/-- The region around a point, each pixel once. It is empty if the point is not on the canvas or
has the color `fill` already. -/
def region (c : Canvas) (p : Point) (fill : Color) : List Point :=
  match c.index? p with
  | none => []
  | some i =>
    if c.pixels[i] = fill then []
    else (search c c.pixels[i] [p] (.replicate _ false) #[]).toList

end Flood

end PenScript
