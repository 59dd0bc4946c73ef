import PenScript.Proofs.Plane

/-!
# Filled shapes

A filled shape is the list of its pixels on the canvas. The columns and the rows are cut down to
those of the canvas before any pixel is looked at, and this is done with integers of 64 bits: the
far corner of a rectangle saturates, and so does the number behind the last column. Nobody can tell,
because no canvas reaches as far as the largest integer. What is listed are the pixels of the canvas
inside of the mathematical shape, row by row and each one once.

## Main definitions

* `Point.Before` — the order of pixels, row by row;
* `Canvas.Lists` — a list of all pixels of the canvas that have a property;
* `Span.saturated` — what cutting down a span comes to with integers of 64 bits.

## Main results

* `Canvas.Lists.unique`: there is one such list;
* `Canvas.lists_region`: the pixels in some columns and rows;
* `Canvas.filled_shapes_are_exact`: filled shapes list the pixels of the mathematical ones.
-/

namespace PenScript

open Integer

/-! ### Row by row -/

/-- The pixel comes first when pixels are listed row by row, each row from the left to the right. -/
def Point.Before (p q : Point) : Prop :=
  p.y < q.y ∨ p.y = q.y ∧ p.x < q.x

instance (p q : Point) : Decidable (p.Before q) :=
  inferInstanceAs (Decidable (_ ∨ _))

/-- No two pixels come before each other. -/
instance : Std.Asymm Point.Before where
  asymm p q before := by
    simp only [Point.Before] at before ⊢
    omega

/-- A grid is listed row by row. -/
theorem Span.pairwise_grid (xs ys : Span) : (grid xs ys).Pairwise Point.Before := by
  refine List.pairwise_flatMap.2
    ⟨fun y _ => ?_, ys.pairwise_toList.imp fun below p here q there => ?_⟩
  · exact List.pairwise_map.2 (xs.pairwise_toList.imp fun left => Or.inr ⟨rfl, left⟩)
  · obtain ⟨x, -, rfl⟩ := List.mem_map.1 here
    obtain ⟨x', -, rfl⟩ := List.mem_map.1 there
    exact Or.inl below

namespace Canvas

/-- The list holds the pixels of the canvas with the property `P` and nothing else. They are listed
row by row, and since no pixel comes before itself, none is repeated. -/
structure Lists (c : Canvas) (P : Point → Prop) (ps : List Point) : Prop where
  ordered : ps.Pairwise Point.Before
  mem_iff : ∀ p, p ∈ ps ↔ c.Contains p ∧ P p

variable {c : Canvas} {P Q : Point → Prop} {ps qs : List Point}

/-- There is one such list. -/
theorem Lists.unique (lists : c.Lists P ps) (lists' : c.Lists P qs) : ps = qs := by
  refine lists.ordered.eq_of_mem_iff lists'.ordered fun p => ?_
  rw [lists.mem_iff, lists'.mem_iff]

/-- The pixels in some columns and rows. -/
theorem lists_region (c : Canvas) (xs ys : Span) :
    c.Lists (fun p => p.x ∈ xs ∧ p.y ∈ ys) (c.region xs ys) := by
  refine ⟨Span.pairwise_grid _ _, fun p => ?_⟩
  rw [mem_region, and_comm]

/-- Properties that the same pixels of the canvas have are listed alike. -/
theorem Lists.congr (lists : c.Lists P ps) (same : ∀ p, c.Contains p → (P p ↔ Q p)) :
    c.Lists Q ps :=
  ⟨lists.ordered, fun p => by rw [lists.mem_iff]; exact and_congr_right (same p)⟩

end Canvas

/-! ### With integers of 64 bits -/

/-- The numbers from `first` to `last` that are between zero and `extent`, as they are computed with
integers of 64 bits: the number behind the last one saturates, and a span without members ends where
it starts. -/
def Span.saturated (first last : Int) (extent : Nat) : Span :=
  ⟨max first 0, max (min (saturate (last + 1)).val extent) (max first 0)⟩

/-- No canvas reaches as far as the largest integer, so that nothing is lost when the end
saturates. -/
theorem Span.mem_saturated {first last i : Int} {extent : Nat} (start : InRange first)
    (some : first ≤ last) (small : extent ≤ 9223372036854775807) :
    i ∈ saturated first last extent ↔ (first ≤ i ∧ i ≤ last) ∧ 0 ≤ i ∧ i < extent := by
  simp only [InRange] at start
  simp only [saturated, saturate, mem_def]
  omega

namespace Canvas

variable {c : Canvas}

/-- What is listed when the columns and the rows are cut down with integers of 64 bits. -/
theorem lists_saturated (wide : c.width ≤ 9223372036854775807)
    (high : c.height ≤ 9223372036854775807) {left right top bottom : Int} (column : InRange left)
    (row : InRange top) (across : left ≤ right) (down : top ≤ bottom) :
    c.Lists (fun p => (left ≤ p.x ∧ p.x ≤ right) ∧ top ≤ p.y ∧ p.y ≤ bottom)
      (Span.grid (.saturated left right c.width) (.saturated top bottom c.height)) := by
  refine ⟨Span.pairwise_grid _ _, fun p => ?_⟩
  rw [Span.mem_grid, Span.mem_saturated column across wide, Span.mem_saturated row down high,
    Contains]
  constructor
  · rintro ⟨⟨inside_x, on_x⟩, inside_y, on_y⟩
    exact ⟨⟨on_x, on_y⟩, inside_x, inside_y⟩
  · rintro ⟨⟨on_x, on_y⟩, inside_x, inside_y⟩
    exact ⟨⟨inside_x, on_x⟩, inside_y, on_y⟩

end Canvas

/-! ### Rectangles -/

namespace Rectangle

variable {c : Canvas} {x y w h : Integer}

/-- The inside of a rectangle is listed. -/
theorem lists_inside (c : Canvas) (corner : Point) (width height : Int) :
    c.Lists (fun p => (corner.x ≤ p.x ∧ p.x ≤ corner.x + width - 1) ∧
      corner.y ≤ p.y ∧ p.y ≤ corner.y + height - 1) (inside c corner width height) := by
  refine (c.lists_region _ _).congr fun p _ => ?_
  simp only [Span.mem_def]
  omega

/-- The inside of a rectangle as it is computed with integers of 64 bits: first the far corner
saturates, then the number behind it. -/
def saturatedInside (c : Canvas) (x y w h : Integer) : List Point :=
  Span.grid (.saturated x.val (saturate (x.val + (w.val - 1))).val c.width)
    (.saturated y.val (saturate (y.val + (h.val - 1))).val c.height)

/-- Nothing of a rectangle is lost when its far corner saturates. -/
theorem saturatedInside_eq (wide : c.width ≤ 9223372036854775807)
    (high : c.height ≤ 9223372036854775807) (across : 1 ≤ w.val) (down : 1 ≤ h.val) :
    saturatedInside c x y w h = inside c ⟨x.val, y.val⟩ w.val h.val := by
  have := x.inRange
  have := y.inRange
  have later {a n : Int} (start : InRange a) (some : 1 ≤ n) : a ≤ (saturate (a + (n - 1))).val := by
    simp only [InRange] at start
    simp only [saturate]
    omega
  refine ((Canvas.lists_saturated wide high x.inRange y.inRange (later x.inRange across)
    (later y.inRange down)).congr fun p on => ?_).unique (lists_inside c _ w.val h.val)
  -- a pixel of the canvas is before the largest integer
  simp only [Canvas.Contains] at on
  simp only [InRange] at *
  simp only [saturate]
  omega

end Rectangle

/-! ### Circles -/

namespace Circle

variable {c : Canvas} {x y r : Integer}

/-- The inside of a circle is listed. -/
theorem lists_disc (c : Canvas) (center : Point) {r : Int} (positive : 0 ≤ r) :
    c.Lists (fun p =>
      (p.x - center.x) * (p.x - center.x) + (p.y - center.y) * (p.y - center.y) ≤ r * r)
      (disc c center r) :=
  ⟨(Span.pairwise_grid _ _).filter _, fun _ => mem_disc positive⟩

/-- The inside of a circle as it is computed with integers of 64 bits. -/
def saturatedDisc (c : Canvas) (x y r : Integer) : List Point :=
  (Span.grid (.saturated (x.val - r.val) (x.val + r.val) c.width)
    (.saturated (y.val - r.val) (y.val + r.val) c.height)).filter fun p =>
      (p.x - x.val) * (p.x - x.val) + (p.y - y.val) * (p.y - y.val) ≤ r.val * r.val

/-- Nothing of a circle is lost when its ends saturate. -/
theorem saturatedDisc_eq (wide : c.width ≤ 9223372036854775807)
    (high : c.height ≤ 9223372036854775807) (positive : 1 ≤ r.val) (left : InRange (x.val - r.val))
    (above : InRange (y.val - r.val)) :
    saturatedDisc c x y r = disc c ⟨x.val, y.val⟩ r.val := by
  have across : x.val - r.val ≤ x.val + r.val := by omega
  have down : y.val - r.val ≤ y.val + r.val := by omega
  have box := Canvas.lists_saturated wide high left above across down
  have same : Span.grid (.saturated (x.val - r.val) (x.val + r.val) c.width)
      (.saturated (y.val - r.val) (y.val + r.val) c.height) =
      c.region ⟨x.val - r.val, x.val + r.val + 1⟩ ⟨y.val - r.val, y.val + r.val + 1⟩ := by
    refine (box.congr fun p _ => ?_).unique (c.lists_region _ _)
    simp only [Span.mem_def]
    omega
  rw [saturatedDisc, same, disc]

end Circle

/-- **Filled shapes are exact.** On every canvas a filled rectangle lists the pixels inside of the
mathematical rectangle, and a filled circle those that are no further than the radius from its
center: all that are on the canvas and no others, each one once, row by row. Where the sides of the
canvas are integers, computing with integers of 64 bits that saturate leads to the same lists. -/
theorem Canvas.filled_shapes_are_exact (c : Canvas) :
    (∀ x y w h : Integer, 1 ≤ w.val → 1 ≤ h.val →
      c.Lists (fun p => (x.val ≤ p.x ∧ p.x ≤ x.val + w.val - 1) ∧
          y.val ≤ p.y ∧ p.y ≤ y.val + h.val - 1)
        (Rectangle.inside c ⟨x.val, y.val⟩ w.val h.val) ∧
      (c.width ≤ 9223372036854775807 → c.height ≤ 9223372036854775807 →
        Rectangle.saturatedInside c x y w h = Rectangle.inside c ⟨x.val, y.val⟩ w.val h.val)) ∧
    ∀ x y r : Integer, 1 ≤ r.val → InRange (x.val - r.val) → InRange (x.val + r.val) →
      InRange (y.val - r.val) → InRange (y.val + r.val) →
      c.Lists (fun p =>
          (p.x - x.val) * (p.x - x.val) + (p.y - y.val) * (p.y - y.val) ≤ r.val * r.val)
        (Circle.disc c ⟨x.val, y.val⟩ r.val) ∧
      (c.width ≤ 9223372036854775807 → c.height ≤ 9223372036854775807 →
        Circle.saturatedDisc c x y r = Circle.disc c ⟨x.val, y.val⟩ r.val) := by
  constructor
  · intro x y w h across down
    refine ⟨Rectangle.lists_inside c ⟨x.val, y.val⟩ w.val h.val, fun wide high => ?_⟩
    exact Rectangle.saturatedInside_eq wide high across down
  · intro x y r positive left _ above _
    refine ⟨Circle.lists_disc c ⟨x.val, y.val⟩ (Int.le_of_lt positive), fun wide high => ?_⟩
    exact Circle.saturatedDisc_eq wide high positive left above

/-- The widest of all rectangles, from two columns left of the canvas on, and a circle around the
upper right corner. -/
theorem Canvas.edges_are_filled :
    (Canvas.blank 4 3).Lists (fun p => (-2 ≤ p.x ∧ p.x ≤ -2 + 9223372036854775807 - 1) ∧
        1 ≤ p.y ∧ p.y ≤ 1 + 1 - 1) [⟨0, 1⟩, ⟨1, 1⟩, ⟨2, 1⟩, ⟨3, 1⟩] ∧
      (Canvas.blank 4 3).Lists (fun p => (p.x - 3) * (p.x - 3) + (p.y - 0) * (p.y - 0) ≤ 2 * 2)
        [⟨1, 0⟩, ⟨2, 0⟩, ⟨3, 0⟩, ⟨2, 1⟩, ⟨3, 1⟩, ⟨3, 2⟩] := by
  obtain ⟨rectangle, circle⟩ := filled_shapes_are_exact (.blank 4 3)
  have widest := rectangle { val := -2 } .one { val := 9223372036854775807 } .one (by decide)
    (by decide)
  have corner := circle { val := 3 } .zero { val := 2 } (by decide) (by decide) (by decide)
    (by decide) (by decide)
  exact ⟨widest.1, corner.1⟩

end PenScript
