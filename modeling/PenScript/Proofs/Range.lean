import PenScript.Proofs.Collinear
import PenScript.Proofs.Filled
import PenScript.Proofs.Intact
import PenScript.Proofs.Midpoint
import PenScript.Studio

/-!
# The numbers of a drawing

The integers of the language have 64 bits, and arithmetic on them is exact or refused. The
arithmetic of drawing is not guarded by itself. Where the pen is left is checked before a figure is
drawn, a stroke is cut down to the steps that can be seen, and the far corner of a rectangle
saturates; so the numbers of strokes and rectangles are in range, as long as the brush is not about
as large as the range. Nothing of this holds for a circle: its center is checked and its ends are
not, so that a circle may reach over the edge of the range.

Drawing a figure asks for few numbers: the coordinates of the points, and the room for the brush at
each of them. Here the points are computed once more, with integers of 64 bits, and every number
that comes up is asked for as soon as it does: the ends of spans, the distances from the start of a
stroke, the decision variable of the walk along a circle. Nothing is refused that drawing would not
have refused, so what drawing asks for is all there is to ask for.

## Main definitions

* `Integer.checked` — a number that was computed, if it is in range;
* `Stroke.visible?`, `Circle.outline?`, `Circle.disc?`, `Rectangle.outline?`, `Rectangle.inside?`,
  `Brush.square?` — shapes whose numbers are checked one by one;
* `Figure.Representable` — all numbers of a figure are in range;
* `Figure.Clear` — the figure stays away from the edge of the range.

## Main results

* `Figure.checkedCenters?_eq`: the points of a drawing are those of checked arithmetic;
* `Figure.representable_iff_whole`: drawing breaks off exactly where a number is out of range;
* `Figure.representable_iff_clear`: which figures these are;
* `Machine.numbers_of_drawings`: the numbers of all drawings of a run;
* `Machine.circle_leaves_the_range`: a program whose circle reaches over the edge.
-/

namespace PenScript

open Integer

/-! ### Numbers that are checked -/

/-- A number that was computed, if it is in range. -/
def Integer.checked (z : Int) : Option Int :=
  if InRange z then some z else none

/-- A number in range goes on to what is computed with it. -/
theorem Integer.checked_bind {α : Type} {z : Int} (inRange : InRange z) (f : Int → Option α) :
    (checked z >>= f) = f z := by
  rw [checked, if_pos inRange]
  rfl

/-- What passes is the number itself. -/
theorem Integer.checked_eq_some {z w : Int} (h : checked z = some w) : w = z := by
  rw [checked] at h
  split at h
  · exact (Option.some.inj h).symm
  · cases h

namespace Point

/-- There is room for a positive distance exactly if all four ends are in range. -/
theorem hasRoom_iff {p : Point} {n : Int} (positive : 0 < n) :
    p.HasRoom n ↔ (Integer.InRange (p.x - n) ∧ Integer.InRange (p.x + n)) ∧
      Integer.InRange (p.y - n) ∧ Integer.InRange (p.y + n) := by
  have moves : n ≠ 0 := by omega
  rw [HasRoom, Integer.HasRoom, Integer.HasRoom, or_iff_right moves, or_iff_right moves]

/-- Points in range pass. -/
theorem inRange?_of_inRange {ps : List Point} (inRange : ∀ p ∈ ps, p.InRange) :
    inRange? ps = some ps :=
  if_pos inRange

/-- Points are in range if the first of them are and the others are. -/
theorem inRange?_append (ps qs : List Point) :
    inRange? (ps ++ qs) = do
      let first ← inRange? ps
      let rest ← inRange? qs
      return first ++ rest := by
  simp only [inRange?, List.forall_mem_append]
  by_cases first : ∀ p ∈ ps, p.InRange
  · by_cases rest : ∀ p ∈ qs, p.InRange
    · rw [if_pos ⟨first, rest⟩, if_pos first, if_pos rest]
      rfl
    · rw [if_neg fun both => rest both.2, if_pos first, if_neg rest]
      rfl
  · rw [if_neg fun both => first both.1, if_neg first]
    rfl

end Point

/-- If all members of a list are computed then the list is. -/
theorem mapM_of_forall {α β : Type} {f : α → Option β} {g : α → β} {l : List α}
    (each : ∀ a ∈ l, f a = some (g a)) : l.mapM f = some (l.map g) := by
  induction l with
  | nil => rfl
  | cons a l ih =>
      obtain ⟨here, later⟩ := List.forall_mem_cons.1 each
      rw [List.mapM_cons, here, ih later]
      rfl

/-! ### Brushes -/

/-- The points under a brush, with its four ends checked. -/
def Brush.square? (p : Point) (size : Nat) : Option (List Point) := do
  let half : Int := (size / 2 : Nat)
  let left ← checked (p.x - half)
  let right ← checked (p.x + half)
  let top ← checked (p.y - half)
  let bottom ← checked (p.y + half)
  return Span.grid ⟨left, right + 1⟩ ⟨top, bottom + 1⟩

/-- A brush at a point in range is computed exactly if it stays in range. -/
theorem Brush.square?_eq {p : Point} (inRange : p.InRange) (size : Nat) :
    square? p size = if Fits size p then some (square p size) else none := by
  have room : Fits size p ↔
      (InRange (p.x - (size / 2 : Nat)) ∧ InRange (p.x + (size / 2 : Nat))) ∧
        InRange (p.y - (size / 2 : Nat)) ∧ InRange (p.y + (size / 2 : Nat)) := by
    obtain ⟨column, row⟩ := inRange
    simp only [InRange] at column row
    simp only [Fits, Point.HasRoom, HasRoom, InRange]
    omega
  by_cases fits : Fits size p
  · obtain ⟨⟨left, right⟩, top, bottom⟩ := room.1 fits
    rw [if_pos fits, square?, checked_bind left, checked_bind right, checked_bind top,
      checked_bind bottom]
    rfl
  · rw [if_neg fits]
    refine Option.eq_none_iff_forall_ne_some.2 fun ps computed => fits (room.2 ?_)
    simp only [square?, checked, Option.bind_eq_bind, Option.bind_eq_some_iff] at computed
    grind

/-! ### Strokes -/

/-- The ends of a span of steps as they are computed: of a span with members the first one, the last
one and the number behind it; a span without members is the one from zero to zero. -/
def Span.ends? (s : Span) : Option Span :=
  if s.first < s.stop then do
    let first ← checked s.first
    let last ← checked (s.stop - 1)
    let stop ← checked (last + 1)
    return ⟨first, stop⟩
  else some .empty

/-- If all members are counted by an integer then the ends are in range, and the members stay. -/
theorem Span.ends?_eq {s : Span} {n : Integer} (within : ∀ i ∈ s, 0 ≤ i ∧ i < n.val) :
    ∃ t, s.ends? = some t ∧ ∀ i, i ∈ t ↔ i ∈ s := by
  rw [ends?]
  split
  · next some =>
    have hi := n.le_hi
    have first := within s.first ⟨Int.le_refl _, some⟩
    have last := within (s.stop - 1) ⟨by omega, by omega⟩
    have inRange {z : Int} (lower : 0 ≤ z) (upper : z ≤ n.val) : InRange z :=
      ⟨by omega, by omega⟩
    refine ⟨s, ?_, fun i => Iff.rfl⟩
    rw [checked_bind (inRange first.1 (by omega)), checked_bind (inRange last.1 (by omega)),
      Int.sub_add_cancel, checked_bind (inRange (by omega) (by omega))]
    rfl
  · next none =>
    refine ⟨.empty, rfl, fun i => ?_⟩
    simp only [empty, mem_def]
    omega

namespace Stroke

/-- The point after `i` steps, with all its numbers checked. -/
def point? (s : Stroke) (i : Int) : Option Point := do
  let across ← checked (s.heading.dx.toInt * i)
  let x ← checked (s.start.x + across)
  let down ← checked (s.heading.dy.toInt * i)
  let y ← checked (s.start.y + down)
  return ⟨x, y⟩

/-- A step that is counted by an integer leads to a point that is computed if it is in range. -/
theorem point?_eq {s : Stroke} {n : Integer} {i : Int} (within : 0 ≤ i ∧ i < n.val)
    (inRange : (s.point i).InRange) : s.point? i = some (s.point i) := by
  have scaled (sign : Sign) : InRange (sign.toInt * i) := by
    have hi := n.le_hi
    cases sign <;> simp only [Sign.toInt, InRange] <;> omega
  have column : InRange (s.start.x + s.heading.dx.toInt * i) := inRange.1
  have row : InRange (s.start.y + s.heading.dy.toInt * i) := inRange.2
  rw [point?, checked_bind (scaled _), checked_bind column, checked_bind (scaled _),
    checked_bind row]
  rfl

/-- The points of a stroke from which a brush of some size reaches the canvas, with all their
numbers checked. -/
def visible? (s : Stroke) (c : Canvas) (size : Nat) : Option (List Point) := do
  let margin := size / 2
  let xs ← (visibleSteps s.start.x s.heading.dx s.steps c.width margin).ends?
  let ys ← (visibleSteps s.start.y s.heading.dy s.steps c.height margin).ends?
  (xs.inter ys).toList.mapM s.point?

/-- The canvas is so small, and the brush too, that what the brush reaches from is in range. -/
structure Fine (c : Canvas) (size : Nat) : Prop where
  width : c.width ≤ 4096
  height : c.height ≤ 4096
  size : size ≤ 9223372036854775807

/-- A point near the canvas is in range. -/
theorem Fine.inRange {c : Canvas} {size : Nat} {p : Point} (fine : Fine c size)
    (near : c.Borders (size / 2) p) : p.InRange := by
  obtain ⟨width, height, small⟩ := fine
  obtain ⟨⟨_, _⟩, _, _⟩ := near
  simp only [Point.InRange, InRange]
  omega

/-- No number of a stroke is out of range, however long it is. -/
theorem visible?_eq {s : Stroke} {c : Canvas} {size : Nat} {n : Integer} (fine : Fine c size)
    (steps : s.steps = n.val) : s.visible? c size = some (s.visible c size) := by
  obtain ⟨xs, columns, mem_xs⟩ := Span.ends?_eq (n := n)
    (s := visibleSteps s.start.x s.heading.dx s.steps c.width (size / 2))
    fun i member => steps ▸ (mem_visibleSteps.1 member).1
  obtain ⟨ys, rows, mem_ys⟩ := Span.ends?_eq (n := n)
    (s := visibleSteps s.start.y s.heading.dy s.steps c.height (size / 2))
    fun i member => steps ▸ (mem_visibleSteps.1 member).1
  have same : (xs.inter ys).toList =
      ((visibleSteps s.start.x s.heading.dx s.steps c.width (size / 2)).inter
        (visibleSteps s.start.y s.heading.dy s.steps c.height (size / 2))).toList := by
    refine (Span.pairwise_toList _).eq_of_mem_iff (Span.pairwise_toList _) fun i => ?_
    rw [Span.mem_toList, Span.mem_toList, Span.mem_inter, Span.mem_inter, mem_xs, mem_ys]
  rw [visible?, visible, columns, rows]
  change (xs.inter ys).toList.mapM s.point? = _
  rw [same]
  refine mapM_of_forall fun i member => ?_
  rw [Span.mem_toList, Span.mem_inter, mem_visibleSteps, mem_visibleSteps, steps] at member
  obtain ⟨⟨within, near_x⟩, -, near_y⟩ := member
  exact point?_eq within (fine.inRange ⟨near_x, near_y⟩)

end Stroke

/-! ### Circles -/

namespace Circle

namespace Stage

/-- The stage behind a step, with all its numbers checked. -/
def next? (s : Stage) : Option Stage := do
  let x ← checked (s.x + 1)
  if 0 < s.d then
    let y ← checked (s.y - 1)
    let gap ← checked (x - y)
    let fourfold ← checked (4 * gap)
    let change ← checked (fourfold + 10)
    let d ← checked (s.d + change)
    return ⟨x, y, d⟩
  else
    let fourfold ← checked (4 * x)
    let change ← checked (fourfold + 6)
    let d ← checked (s.d + change)
    return ⟨x, s.y, d⟩

/-- A step that is computed is the step of the walk. -/
theorem next?_eq_some {s t : Stage} (h : s.next? = some t) : t = s.next := by
  simp only [next?, Option.bind_eq_bind, Option.bind_eq_some_iff] at h
  obtain ⟨x, column, h⟩ := h
  obtain rfl := checked_eq_some column
  rw [next]
  split at h
  · next below =>
    simp only [Option.bind_eq_some_iff] at h
    obtain ⟨y, row, gap, apart, fourfold, four, change, changes, d, decides, h⟩ := h
    obtain rfl := checked_eq_some row
    obtain rfl := checked_eq_some apart
    obtain rfl := checked_eq_some four
    obtain rfl := checked_eq_some changes
    obtain rfl := checked_eq_some decides
    obtain rfl := Option.some.inj h
    rw [if_pos below]
    congr 1
    omega
  · next above =>
    simp only [Option.bind_eq_some_iff] at h
    obtain ⟨fourfold, four, change, changes, d, decides, h⟩ := h
    obtain rfl := checked_eq_some four
    obtain rfl := checked_eq_some changes
    obtain rfl := checked_eq_some decides
    obtain rfl := Option.some.inj h
    rw [if_neg above]
    congr 1
    omega

/-- No number of a step is out of range as long as the walk stays within a radius that is allowed.
-/
theorem next?_eq {s : Stage} {r : Int} (small : r ≤ maxRadius) (here : s.x ≤ s.y)
    (within : s.Within r) : s.next? = some s.next := by
  obtain ⟨column, row, lower, upper⟩ := within
  have bound : (maxRadius : Int) = 1048576 := rfl
  have inRange {z : Int} (lower : -100000000 ≤ z) (upper : z ≤ 100000000) : InRange z :=
    ⟨by omega, by omega⟩
  rw [next?, checked_bind (inRange (by omega) (by omega)), next]
  split
  · rw [checked_bind (inRange (by omega) (by omega)), checked_bind (inRange (by omega) (by omega)),
      checked_bind (inRange (by omega) (by omega)), checked_bind (inRange (by omega) (by omega)),
      checked_bind (inRange (by omega) (by omega))]
    refine congrArg some ?_
    congr 1
    omega
  · rw [checked_bind (inRange (by omega) (by omega)), checked_bind (inRange (by omega) (by omega)),
      checked_bind (inRange (by omega) (by omega))]
    refine congrArg some ?_
    congr 1
    omega

end Stage

/-- Walks one eighth of a circle from a stage on, with all numbers checked, and collects the points
of all eighths. -/
def walk? (center : Point) (s : Stage) : Option (List Point) :=
  if s.x ≤ s.y then do
    let here ← Point.inRange? (octants center s.x s.y)
    match _step : s.next? with
    | none => none
    | some t =>
      let later ← walk? center t
      return here ++ later
  else some []
termination_by (s.y + 1 - s.x).toNat
decreasing_by
  obtain rfl := Stage.next?_eq_some _step
  rw [Stage.next]
  split
  · dsimp only
    omega
  · dsimp only
    omega

/-- The points of the outline of a circle, with all numbers checked. -/
def outline? (center : Point) (radius : Int) : Option (List Point) := do
  let diameter ← checked (2 * radius)
  let d ← checked (3 - diameter)
  walk? center ⟨0, radius, d⟩

/-- A walk within a radius that is allowed asks for the points only. -/
theorem walk?_eq (center : Point) {s : Stage} {r : Int} (small : r ≤ maxRadius)
    (within : s.Within r) :
    walk? center s = Point.inRange? ((stages s).flatMap fun s => octants center s.x s.y) := by
  induction s using stages.induct with
  | case1 s here ih =>
      have step := Stage.next?_eq small here within
      rw [walk?, if_pos here, stages_of_le here, List.flatMap_cons, Point.inRange?_append,
        ← ih (within.next here)]
      refine bind_congr fun points => ?_
      split
      · next stuck => cases stuck.symm.trans step
      · next t goes =>
        obtain rfl := Option.some.inj (goes.symm.trans step)
        rfl
  | case2 s crossed =>
      rw [walk?, if_neg crossed, stages_of_not_le crossed]
      rfl

/-- **The outline of a circle** asks for its points only: the decision variable stays small. -/
theorem outline?_eq (center : Point) {r : Int} (positive : 0 ≤ r) (small : r ≤ maxRadius) :
    outline? center r = Point.inRange? (outline center r) := by
  have bound : (maxRadius : Int) = 1048576 := rfl
  have start : (Stage.start r).Within r := ⟨Int.le_refl 0, Int.le_refl r, by
    simp only [Stage.start]; omega, by simp only [Stage.start]; omega⟩
  rw [outline?, checked_bind ⟨by omega, by omega⟩, checked_bind ⟨by omega, by omega⟩, outline_eq]
  exact walk?_eq center small start

/-- The points of a canvas inside of a circle, with all numbers checked: the ends of the circle, and
how far each pixel of the box is from the center. -/
def disc? (c : Canvas) (x y r : Integer) : Option (List Point) := do
  let left ← checked (x.val - r.val)
  let right ← checked (x.val + r.val)
  let top ← checked (y.val - r.val)
  let bottom ← checked (y.val + r.val)
  let box := Span.grid (.saturated left right c.width) (.saturated top bottom c.height)
  let _ ← Point.inRange? (box.map fun p => ⟨p.x - x.val, p.y - y.val⟩)
  return box.filter fun p =>
    (p.x - x.val) * (p.x - x.val) + (p.y - y.val) * (p.y - y.val) ≤ r.val * r.val

/-- **The inside of a circle** asks for its four ends only. -/
theorem disc?_eq {c : Canvas} {x y r : Integer} (wide : c.width ≤ 9223372036854775807)
    (high : c.height ≤ 9223372036854775807) (positive : 1 ≤ r.val) :
    disc? c x y r = if Point.HasRoom ⟨x.val, y.val⟩ r.val then
      some (disc c ⟨x.val, y.val⟩ r.val) else none := by
  have room : Point.HasRoom ⟨x.val, y.val⟩ r.val ↔
      (InRange (x.val - r.val) ∧ InRange (x.val + r.val)) ∧
        InRange (y.val - r.val) ∧ InRange (y.val + r.val) := Point.hasRoom_iff positive
  by_cases fits : Point.HasRoom ⟨x.val, y.val⟩ r.val
  · obtain ⟨⟨left, right⟩, top, bottom⟩ := room.1 fits
    have across : x.val - r.val ≤ x.val + r.val := by omega
    have down : y.val - r.val ≤ y.val + r.val := by omega
    have offsets : ∀ q ∈ (Span.grid (.saturated (x.val - r.val) (x.val + r.val) c.width)
        (.saturated (y.val - r.val) (y.val + r.val) c.height)).map
          fun p => Point.mk (p.x - x.val) (p.y - y.val), q.InRange := by
      intro q member
      obtain ⟨p, inBox, rfl⟩ := List.mem_map.1 member
      obtain ⟨column, row⟩ := Span.mem_grid.1 inBox
      have near_x := ((Span.mem_saturated left across wide).1 column).1
      have near_y := ((Span.mem_saturated top down high).1 row).1
      have hi := r.le_hi
      simp only [Point.InRange, InRange]
      omega
    rw [if_pos fits, ← saturatedDisc_eq wide high positive left top, disc?, checked_bind left,
      checked_bind right, checked_bind top, checked_bind bottom]
    dsimp only
    rw [Point.inRange?_of_inRange offsets]
    rfl
  · rw [if_neg fits]
    refine Option.eq_none_iff_forall_ne_some.2 fun ps computed => fits (room.2 ?_)
    simp only [disc?, checked, Option.bind_eq_bind, Option.bind_eq_some_iff] at computed
    grind

end Circle

/-! ### Rectangles -/

namespace Rectangle

/-- The visible points of strokes one after the other, with all numbers checked. -/
def trace? (c : Canvas) (size : Nat) (earlier : List Stroke) : List Stroke → Option (List Point)
  | [] => some []
  | s :: rest => do
    let here ← s.visible? c size
    let later ← trace? c size (s :: earlier) rest
    return here.filter (fun p => !earlier.any fun e => e.Covers p) ++ later

/-- The points of the outline of a rectangle, with all numbers checked. -/
def outline? (c : Canvas) (corner : Point) (width height : Int) (size : Nat) :
    Option (List Point) := do
  let _ ← checked (width - 1)
  let _ ← checked (height - 1)
  trace? c size [] (sides corner width height)

/-- The points of a canvas inside of a rectangle, with all numbers checked. -/
def inside? (c : Canvas) (x y w h : Integer) : Option (List Point) := do
  let _ ← checked (w.val - 1)
  let _ ← checked (h.val - 1)
  return saturatedInside c x y w h

variable {c : Canvas} {size : Nat}

/-- No number of strokes is out of range. -/
theorem trace?_eq (fine : Stroke.Fine c size) (earlier : List Stroke) {strokes : List Stroke}
    (steps : ∀ s ∈ strokes, ∃ n : Integer, s.steps = n.val) :
    trace? c size earlier strokes = some (trace c size earlier strokes) := by
  induction strokes generalizing earlier with
  | nil => rfl
  | cons s rest ih =>
      obtain ⟨⟨n, counted⟩, later⟩ := List.forall_mem_cons.1 steps
      rw [trace?, Stroke.visible?_eq fine counted, ih (s :: earlier) later]
      rfl

/-- The extents of a rectangle that has points are in range. -/
theorem inRange_extent {w : Integer} (positive : 0 < w.val) : InRange (w.val - 1) := by
  have := w.le_hi
  exact ⟨by omega, by omega⟩

/-- **No number of the outline of a rectangle** is out of range: the far corner saturates. -/
theorem outline?_eq (fine : Stroke.Fine c size) (corner : Point) {w h : Integer}
    (across : 0 < w.val) (down : 0 < h.val) :
    outline? c corner w.val h.val size = some (outline c corner w.val h.val size) := by
  rw [outline?, checked_bind (inRange_extent across), checked_bind (inRange_extent down), outline]
  refine trace?_eq fine [] fun s side => ?_
  simp only [sides, List.mem_cons, List.not_mem_nil, or_false] at side
  rcases side with rfl | rfl | rfl | rfl
  · exact ⟨w, rfl⟩
  · exact ⟨h, rfl⟩
  · exact ⟨w, rfl⟩
  · exact ⟨h, rfl⟩

/-- **No number of the inside of a rectangle** is out of range. -/
theorem inside?_eq {x y w h : Integer} (wide : c.width ≤ 9223372036854775807)
    (high : c.height ≤ 9223372036854775807) (across : 0 < w.val) (down : 0 < h.val) :
    inside? c x y w h = some (inside c ⟨x.val, y.val⟩ w.val h.val) := by
  rw [inside?, checked_bind (inRange_extent across), checked_bind (inRange_extent down),
    saturatedInside_eq wide high across down]
  rfl

end Rectangle

/-! ### Figures -/

namespace Figure

/-- The points at which the brush is put down for a figure, with all numbers checked. -/
def checkedCenters? (c : Canvas) (pen : Pen) : Figure → Option (List Point)
  | stroke h n _ _ => Stroke.visible? ⟨pen.point, h, n.val⟩ c pen.brush.size
  | circle x y r =>
    if pen.filling then Circle.disc? c x y r else Circle.outline? ⟨x.val, y.val⟩ r.val
  | rectangle x y w t =>
    if pen.filling then Rectangle.inside? c x y w t
    else Rectangle.outline? c ⟨x.val, y.val⟩ w.val t.val pen.brush.size
  | region => some (Flood.region c pen.point pen.color)

/-- All numbers of a figure are in range: those that its points are computed with, and at each of
these points the ends of the brush. -/
def Representable (c : Canvas) (pen : Pen) (f : Figure) : Prop :=
  ∃ centers, f.checkedCenters? c pen = some centers ∧
    ∀ p ∈ centers, (Brush.square? p (f.drawing c pen).size).isSome

/-- The figure stays away from the edge of the range. Strokes and the sides of rectangles are near
the canvas where they are drawn at all, so it is up to the brush; but the ends of a circle can be
anywhere, and they are asked for together with the brush there. -/
def Clear (c : Canvas) (pen : Pen) : Figure → Prop
  | stroke h n _ _ =>
    ∀ p, Stroke.Visits ⟨pen.point, h, n.val⟩ p → c.Borders (pen.brush.size / 2) p →
      Brush.Fits pen.brush.size p
  | circle x y r =>
    let reach : Int := if pen.filling then r.val else r.val + (pen.brush.size / 2 : Nat)
    (InRange (x.val - reach) ∧ InRange (x.val + reach)) ∧
      InRange (y.val - reach) ∧ InRange (y.val + reach)
  | rectangle x y w t =>
    pen.filling ∨ ∀ p, (∃ s ∈ Rectangle.sides ⟨x.val, y.val⟩ w.val t.val, s.Visits p) →
      c.Borders (pen.brush.size / 2) p → Brush.Fits pen.brush.size p
  | region => True

variable {c : Canvas} {pen : Pen} {f : Figure}

/-- **The points of a drawing are those of checked arithmetic.** -/
theorem checkedCenters?_eq (fine : Stroke.Fine c pen.brush.size) (fits : f.Fits pen) :
    f.checkedCenters? c pen = (f.drawing c pen).centers? := by
  have wide : c.width ≤ 9223372036854775807 := Nat.le_trans fine.width (by decide)
  have high : c.height ≤ 9223372036854775807 := Nat.le_trans fine.height (by decide)
  cases f with
  | stroke h n x y =>
      rw [checkedCenters?, drawing, Stroke.visible?_eq fine rfl]
      refine (Point.inRange?_of_inRange fun p member => ?_).symm
      exact fine.inRange (Stroke.mem_visible.1 member).2
  | circle x y r =>
      rw [checkedCenters?, drawing]
      split
      · exact Circle.disc?_eq wide high fits.1
      · exact Circle.outline?_eq _ (Int.le_of_lt fits.1) fits.2.1
  | rectangle x y w t =>
      rw [checkedCenters?, drawing]
      split
      · exact Rectangle.inside?_eq wide high fits.1 fits.2
      · rw [Rectangle.outline?_eq fine _ fits.1 fits.2]
        refine (Point.inRange?_of_inRange fun p member => ?_).symm
        exact fine.inRange (Rectangle.mem_outline.1 member).2
  | region => rfl

/-- The points of a drawing are in range. -/
theorem inRange_of_centers (fine : Stroke.Fine c pen.brush.size) {centers : List Point} {p : Point}
    (points : (f.drawing c pen).centers? = some centers) (member : p ∈ centers) : p.InRange := by
  have onCanvas (inside : c.Contains p) : p.InRange := by
    obtain ⟨width, height, -⟩ := fine
    obtain ⟨⟨_, _⟩, _, _⟩ := inside
    exact ⟨⟨by omega, by omega⟩, by omega, by omega⟩
  have computed {ps : List Point} (points : Point.inRange? ps = some centers) : p.InRange := by
    obtain ⟨rfl, inRange⟩ := Point.inRange?_eq_some.1 points
    exact inRange p member
  cases f with
  | stroke h n x y => exact computed points
  | circle x y r =>
      rw [drawing] at points
      split at points
      · dsimp only at points
        split at points
        · obtain rfl := Option.some.inj points
          rw [Circle.disc, List.mem_filter] at member
          exact onCanvas (Canvas.mem_region.1 member.1).2
        · cases points
      · exact computed points
  | rectangle x y w t =>
      rw [drawing] at points
      split at points
      · obtain rfl := Option.some.inj points
        exact onCanvas (Canvas.mem_region.1 member).2
      · exact computed points
  | region =>
      obtain rfl := Option.some.inj points
      exact onCanvas (Flood.mem_region_iff.1 member).2.contains

/-- **Drawing breaks off exactly where a number is out of range**: all of a figure is painted if and
only if all of its numbers are in range. -/
theorem representable_iff_whole (fine : Stroke.Fine c pen.brush.size) (fits : f.Fits pen) :
    f.Representable c pen ↔ ((f.drawing c pen).coat c).whole = true := by
  rw [Representable, checkedCenters?_eq fine fits, Drawing.whole_coat]
  refine exists_congr fun centers => and_congr_right fun points => ?_
  refine forall₂_congr fun p member => ?_
  rw [Brush.square?_eq (inRange_of_centers fine points member)]
  split
  · next room => exact ⟨fun _ => room, fun _ => rfl⟩
  · next tight =>
      exact ⟨fun computed => absurd computed Bool.false_ne_true, fun room => absurd room tight⟩

/-- The outline of a circle stays in range exactly if its four ends do, with the brush there. -/
theorem outline_inRange_iff {center : Point} {r : Int} {size : Nat} (positive : 0 ≤ r) :
    (∀ p ∈ Circle.outline center r, p.InRange ∧ Brush.Fits size p) ↔
      (InRange (center.x - (r + (size / 2 : Nat))) ∧ InRange (center.x + (r + (size / 2 : Nat)))) ∧
        InRange (center.y - (r + (size / 2 : Nat))) ∧
          InRange (center.y + (r + (size / 2 : Nat))) := by
  constructor
  · intro all
    have right := all ⟨center.x + r, center.y⟩ (Circle.mem_outline_of_end positive (by simp))
    have left := all ⟨center.x - r, center.y⟩ (Circle.mem_outline_of_end positive (by simp))
    have below := all ⟨center.x, center.y + r⟩ (Circle.mem_outline_of_end positive (by simp))
    have above := all ⟨center.x, center.y - r⟩ (Circle.mem_outline_of_end positive (by simp))
    simp only [Point.InRange, Brush.Fits, Point.HasRoom, HasRoom, InRange] at *
    omega
  · intro ends p member
    have near := Circle.near_of_mem_outline positive member
    simp only [Point.InRange, Brush.Fits, Point.HasRoom, HasRoom, InRange] at *
    omega

/-- Near the canvas it is up to the brush. -/
theorem inRange_iff_of_borders (fine : Stroke.Fine c pen.brush.size) {centers : List Point}
    {Shape : Point → Prop}
    (shown : ∀ p, p ∈ centers ↔ Shape p ∧ c.Borders (pen.brush.size / 2) p) :
    (∀ p ∈ centers, p.InRange ∧ Brush.Fits pen.brush.size p) ↔
      ∀ p, Shape p → c.Borders (pen.brush.size / 2) p → Brush.Fits pen.brush.size p := by
  constructor
  · intro all p shape near
    exact (all p ((shown p).2 ⟨shape, near⟩)).2
  · intro all p member
    obtain ⟨shape, near⟩ := (shown p).1 member
    exact ⟨fine.inRange near, all p shape near⟩

/-- **Which figures are painted to their end**: those that stay away from the edge of the range. -/
theorem representable_iff_clear (fine : Stroke.Fine c pen.brush.size) (fits : f.Fits pen) :
    f.Representable c pen ↔ f.Clear c pen := by
  rw [representable_iff_whole fine fits]
  cases f with
  | stroke h n x y =>
      rw [drawing, Drawing.whole_coat_inRange, Clear]
      exact inRange_iff_of_borders fine fun p => Stroke.mem_visible
  | circle x y r =>
      have positive := fits.1
      rw [drawing, Clear]
      split
      · rw [Drawing.whole_coat]
        dsimp only
        constructor
        · rintro ⟨centers, points, -⟩
          split at points
          · next room => exact (Point.hasRoom_iff positive).1 room
          · cases points
        · intro ends
          have room : Point.HasRoom ⟨x.val, y.val⟩ r.val := (Point.hasRoom_iff positive).2 ends
          exact ⟨_, if_pos room, fun p _ => Brush.fits_one p⟩
      · rw [Drawing.whole_coat_inRange]
        exact outline_inRange_iff (Int.le_of_lt positive)
  | rectangle x y w t =>
      rw [drawing, Clear]
      split
      · next filling =>
        rw [Drawing.whole_coat]
        exact ⟨fun _ => Or.inl filling, fun _ => ⟨_, rfl, fun p _ => Brush.fits_one p⟩⟩
      · next hollow =>
        rw [Drawing.whole_coat_inRange, or_iff_right hollow]
        exact inRange_iff_of_borders fine fun p => Rectangle.mem_outline
  | region =>
      rw [drawing, Clear, Drawing.whole_coat]
      exact ⟨fun _ => True.intro, fun _ => ⟨_, rfl, fun p _ => Brush.fits_one p⟩⟩

/-- Only a brush that is about as large as the range can take a stroke, a rectangle or a region out
of it. -/
theorem clear_of_room (round : ∀ x y r, f ≠ .circle x y r)
    (room : pen.brush.size + max c.width c.height ≤ 9223372036854775809) : f.Clear c pen := by
  cases f with
  | stroke h n x y => exact fun p _ near => (near.inRange pen.brush.odd room).2
  | circle x y r => exact absurd rfl (round x y r)
  | rectangle x y w t => exact Or.inr fun p _ near => (near.inRange pen.brush.odd room).2
  | region => exact True.intro

end Figure

/-! ### Runs -/

namespace Machine

/-- The canvas has the sides that it had at the start, and the brush is sound. -/
structure Drawable (width height : Nat) (m : Machine) : Prop where
  width : m.canvas.width = width
  height : m.canvas.height = height
  brush : m.pen.brush.Sound

/-- Every step of a run keeps the sides of the canvas and a sound brush. -/
theorem drawable_of_step {width height : Nat} (m m' : Machine) (step : Step m m')
    (drawable : m.Drawable width height) : m'.Drawable width height := by
  obtain ⟨wide, high, brush⟩ := drawable
  have brush' := brush_of_step step brush
  cases step with
  | blend q color =>
      exact ⟨by rw [Canvas.width_blend, wide], by rw [Canvas.height_blend, high], brush'⟩
  | start | poll | fetch | read | pixel | report | settle => exact ⟨wide, high, brush'⟩
  | conclude outcome => cases outcome <;> exact ⟨wide, high, brush'⟩

/-- Executing a statement that draws is broken off exactly if not all of its figure is painted. -/
theorem exec_eq_overflow_iff {dice : Nat → Nat} {s : Stmt} {m : Machine} {f : Figure}
    {throws : Nat} (draws : s.act (m.scene dice) m.throws = .ok (.draw f, throws))
    (unhindered : Unhindered (exec dice s m)) :
    (∃ m', exec dice s m = .error .overflow m') ↔
      ((f.drawing m.canvas m.pen).coat m.canvas).whole = false := by
  rw [exec_of_act draws, perform, draw_eq] at unhindered ⊢
  obtain ⟨canvas, reporter, through | ⟨halt, outer, stopped⟩⟩ := paintPixels_cases m.pen.color
    ((f.drawing m.canvas m.pen).coat m.canvas).pixels { m with throws }
  · rw [through, settled]
    split
    · next whole =>
      constructor
      · rintro ⟨m', ⟨⟩⟩
      · intro broken
        cases whole.symm.trans broken
    · next broken => exact ⟨fun _ => by simpa using broken, fun _ => ⟨_, rfl⟩⟩
  · rw [stopped] at unhindered
    exact absurd (unhindered halt _ rfl) (disturbed_of_outer halt outer)

/-- **The numbers of all drawings of a run.** Let a program be run on a canvas with sides of at most
4096 pixels, and let a statement draw a figure where the run stands. If nobody stops it from
outside, it is broken off exactly if one of the numbers of the figure is not an integer of the
language, when all of them are computed with such integers; and that is so exactly if the figure is
not clear of the edge of the range. Only circles reach the edge as long as the brush is not about as
large as the range. -/
theorem numbers_of_drawings (dice : Nat → Nat) (p : Program) (limit : Nat) (start m : Machine)
    (history : List (Machine × Stmt)) (s : Stmt) (f : Figure) (throws : Nat)
    (wide : start.canvas.width ≤ 4096) (high : start.canvas.height ≤ 4096)
    (reaches : Reaches dice p limit start history m)
    (draws : s.act (m.fetched.scene dice) m.fetched.throws = .ok (.draw f, throws)) :
    (Unhindered (exec dice s m.fetched) →
      ((∃ m', exec dice s m.fetched = .error .overflow m') ↔ ¬f.Representable m.canvas m.pen)) ∧
      (f.Representable m.canvas m.pen ↔ f.Clear m.canvas m.pen) ∧
      ((∀ x y r, f ≠ .circle x y r) →
        m.pen.brush.size + max m.canvas.width m.canvas.height ≤ 9223372036854775809 →
        f.Representable m.canvas m.pen) := by
  have again : Reaches dice p limit start.restart history m := reaches
  have drawable : m.Drawable start.canvas.width start.canvas.height :=
    again.invariant drawable_of_step ⟨rfl, rfl, Brush.sound_single⟩
  have fine : Stroke.Fine m.canvas m.pen.brush.size :=
    ⟨drawable.width ▸ wide, drawable.height ▸ high, drawable.brush.bounded⟩
  have fits : f.Fits m.pen := ((s.act_suits (m.fetched.scene dice)).of_eq_ok draws).2.1
  have clear := Figure.representable_iff_clear fine fits
  refine ⟨fun unhindered => ?_, clear, fun round room => clear.2 (Figure.clear_of_room round room)⟩
  rw [exec_eq_overflow_iff draws unhindered, Figure.representable_iff_whole fine fits,
    Bool.not_eq_true]
  rfl

/-! ### Over the edge -/

/-- What compiles is a program. -/
theorem ok_of_isOk {ε α : Type} {x : Except ε α} (d : α) (h : x.isOk = true) :
    x = .ok (x.toOption.getD d) := by
  cases x with
  | error e => cases h
  | ok a => rfl

/-- A machine with a canvas of eight by eight pixels. -/
def chessboard : Machine :=
  fresh (.blank 8 8) {} .never 0

/-- The longest of all lines. -/
def longest : Stmt :=
  ⟨⟨1, 1⟩, .drawLine (.lit ⟨1, 10⟩ (.int .one)) (.lit ⟨1, 13⟩ (.int .zero))
    (.lit ⟨1, 16⟩ (.int (.saturate 9223372036854775807)))⟩

/-- The machine in front of the only statement of a program. -/
def inFront : Machine :=
  { chessboard with flow := { limit := 10 } }

/-- The line up to the edge of the range computes nothing beyond it. -/
theorem line_stays_in_range :
    Reaches (fun _ => 0) { stmts := [longest] } 10 chessboard [] inFront ∧
      ∃ f throws, longest.act (inFront.fetched.scene fun _ => 0) inFront.fetched.throws =
          .ok (.draw f, throws) ∧ f.Representable inFront.canvas inFront.pen ∧
        ¬∃ m', exec (fun _ => 0) longest inFront.fetched = .error .overflow m' := by
  have reaches : Reaches (fun _ => 0) { stmts := [longest] } 10 chessboard [] inFront :=
    ⟨_, rfl, .nil _⟩
  refine ⟨reaches, .stroke ⟨.pos, .zero⟩ (.saturate 9223372036854775807)
    (.saturate 9223372036854775806) .zero, 0, rfl, ?_⟩
  obtain ⟨breaks, -, room⟩ := numbers_of_drawings (fun _ => 0) { stmts := [longest] } 10 chessboard
    inFront [] longest _ 0 (by decide) (by decide) reaches rfl
  have inRange := room (fun _ _ _ => nofun) (by decide)
  have unhindered := exec_of_passing (m := inFront.fetched) (fun _ => 0) longest ⟨rfl, rfl⟩
    (by decide)
  exact ⟨inRange, fun broken => (breaks unhindered).1 broken inRange⟩

/-- A line that leaves the pen at the edge of the range, and a circle around the pen. -/
def edgeText : String :=
  "Spawn(0, 0)\nDrawLine(1, 0, 9223372036854775807)\nDrawCircle(0, 0, 2)\n"

/-- The program of `edgeText`. -/
def edge : Program :=
  (compile edgeText).toOption.getD {}

/-- **A circle over the edge of the range.** The program is accepted, and its run is broken off when
it comes to the circle: a point of the circle is beyond the largest integer. -/
theorem circle_leaves_the_range :
    compile edgeText = .ok edge ∧ (run (fun _ => 0) edge 10000 chessboard).1 = .overflow ∧
      (⟨9223372036854775808, 0⟩ : Point) ∈ Circle.outline ⟨9223372036854775806, 0⟩ 2 ∧
      ¬InRange 9223372036854775808 := by
  exact ⟨ok_of_isOk _ (by decide +kernel), by decide +kernel, by decide +kernel, by decide⟩

end Machine

end PenScript
