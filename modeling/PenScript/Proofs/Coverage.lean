import PenScript.Proofs.Crop

/-!
# What a brush covers

A brush of some size is put down at one center after the other. The squares under it overlap as soon
as it is wider than one pixel, and a color that shines through would be seen twice where they do. So
painting keeps a record of the pixels that it has written. What it comes to is said here by
distances alone: a pixel that is near enough to some center takes the color once, and neither the
order of the centers nor their number matters. That is so as long as the brush stays in the range of
integers; the first center where it does not is the end of the painting, and of the run.

A stroke may be longer than any canvas, and most of its points may be far away. So the steps that
can be seen are computed, one span for the columns and one for the rows, and the others are never
visited. Nobody can tell: the points that are listed are the points of the whole stroke that are
near the canvas, in their order, and the whole stroke covers the same pixels one after the other.

## Main definitions

* `Point.distance` — how far two points are from each other, in columns or in rows;
* `Canvas.Reached` — the pixels that a brush reaches from some centers;
* `Machine.Painted` — what painting leaves of a machine;
* `Stroke.points` — all points of a stroke, in order.

## Main results

* `Canvas.get_lay_covered`: the colors behind the painting;
* `Canvas.lay_covered_congr`: centers that reach the same pixels give the same canvas;
* `Machine.painting_blends_once`: painting lays the color over every pixel that is reached, once;
* `Machine.broad_brush_breaks_off`: a brush that leaves the range;
* `Stroke.visible_eq_filter`, `Machine.clipping_is_invisible`: what is listed of a stroke, and what
  it comes to;
* `Machine.broadest_stroke_breaks_off`: a stroke of one point whose brush leaves the range.
-/

namespace PenScript

/-! ### Distances -/

/-- How far two points are from each other: in columns or in rows, whichever is further. -/
def Point.distance (p q : Point) : Nat :=
  max (p.x - q.x).natAbs (p.y - q.y).natAbs

/-- The points under a brush are those at most half of its size away from its center. -/
theorem under_iff_distance {size : Nat} {center q : Point} :
    Under size center q ↔ center.distance q ≤ size / 2 := by
  simp only [Under, Span.around, Span.mem_def, Point.distance]
  omega

namespace Canvas

/-- A pixel of the canvas that a brush of some size reaches from one of the centers. -/
def Reached (c : Canvas) (centers : List Point) (size : Nat) (q : Point) : Prop :=
  c.Contains q ∧ ∃ p ∈ centers, p.distance q ≤ size / 2

instance (c : Canvas) (centers : List Point) (size : Nat) (q : Point) :
    Decidable (c.Reached centers size q) :=
  inferInstanceAs (Decidable (_ ∧ ∃ p ∈ centers, p.distance q ≤ size / 2))

variable {c c' : Canvas} {centers centers' : List Point} {size size' : Nat} {q : Point}

/-- What is covered is what is reached. -/
theorem mem_covered_iff : q ∈ c.covered centers size ↔ c.Reached centers size q := by
  rw [mem_covered, Reached]
  refine and_congr_right fun _ => exists_congr fun p => and_congr_right fun _ => ?_
  exact under_iff_distance

/-- The brush of one pixel reaches the centers. -/
theorem reached_one : c.Reached centers 1 q ↔ c.Contains q ∧ q ∈ centers := by
  rw [← mem_covered_iff, Figure.covered_one]

/-! ### Canvases and their pixels -/

/-- A column and a row that are counted from zero are on the canvas if there are so many. -/
theorem contains_natCast {x y : Nat} : c.Contains ⟨x, y⟩ ↔ x < c.width ∧ y < c.height := by
  simp only [Contains]
  omega

/-- The points of a canvas are its columns and rows, counted from zero. -/
theorem exists_natCast (inside : c.Contains q) :
    ∃ x y : Nat, x < c.width ∧ y < c.height ∧ q = ⟨x, y⟩ := by
  obtain ⟨column, row⟩ := q
  obtain ⟨x, rfl⟩ := Int.eq_ofNat_of_zero_le inside.1.1
  obtain ⟨y, rfl⟩ := Int.eq_ofNat_of_zero_le inside.2.1
  obtain ⟨right, bottom⟩ := contains_natCast.1 inside
  exact ⟨x, y, right, bottom, rfl⟩

/-- Canvases of the same sides with the same pixels are the same. -/
theorem ext_get (width : c.width = c'.width) (height : c.height = c'.height)
    (same : ∀ q, c.get q = c'.get q) : c = c' := by
  have whole : PartOf c' c' := ⟨Nat.le_refl _, Nat.le_refl _, fun _ _ => rfl⟩
  have part : PartOf c c' :=
    ⟨Nat.le_of_eq width, Nat.le_of_eq height, fun q _ => (same q).symm⟩
  calc c = c'.crop c.width c.height := part.crop_eq.symm
    _ = c'.crop c'.width c'.height := by rw [width, height]
    _ = c' := whole.crop_eq

/-- A color that is laid over pixels leaves the size of the canvas. -/
theorem contains_lay {color : Color} {ps : List Point} :
    (c.lay color ps).Contains q ↔ c.Contains q := by
  rw [Contains, Contains, width_lay, height_lay]

/-- **The colors behind the painting.** The color lies over every pixel that is reached, once, and
all other pixels are as they were. -/
theorem get_lay_covered (c : Canvas) (color : Color) (centers : List Point) (size : Nat)
    (q : Point) :
    (c.lay color (c.covered centers size)).get q =
      if c.Reached centers size q then color.onto (c.get q) else c.get q := by
  by_cases inside : c.Contains q
  · rw [get_lay (c.nodup_covered centers size) inside]
    by_cases reached : c.Reached centers size q
    · rw [if_pos reached, if_pos (mem_covered_iff.2 reached)]
    · rw [if_neg reached, if_neg fun member => reached (mem_covered_iff.1 member)]
  · have outside : ¬(c.lay color (c.covered centers size)).Contains q :=
      fun h => inside (contains_lay.1 h)
    rw [if_neg fun reached => inside reached.1, get_of_not_contains inside,
      get_of_not_contains outside]

/-- Centers that reach the same pixels give the same canvas. -/
theorem lay_covered_congr (color : Color)
    (same : ∀ q, c.Reached centers size q ↔ c.Reached centers' size' q) :
    c.lay color (c.covered centers size) = c.lay color (c.covered centers' size') := by
  refine ext_get ?_ ?_ fun q => ?_
  · rw [width_lay, width_lay]
  · rw [height_lay, height_lay]
  · simp only [get_lay_covered, same q]

end Canvas

/-! ### Painting -/

namespace Machine

variable {m m' : Machine} {centers : List Point} {size : Nat}

/-- What painting with a brush leaves of a machine: the canvas keeps its sides, the color of the pen
lies over the pixels that are reached, and all other pixels are as they were; so is everything else
but the reporter. -/
structure Painted (centers : List Point) (size : Nat) (m m' : Machine) : Prop where
  width : m'.canvas.width = m.canvas.width
  height : m'.canvas.height = m.canvas.height
  reached : ∀ q, m.canvas.Reached centers size q →
    m'.canvas.get q = m.pen.color.onto (m.canvas.get q)
  rest : ∀ q, ¬m.canvas.Reached centers size q → m'.canvas.get q = m.canvas.get q
  others : m' = { m with canvas := m'.canvas, reporter := m'.reporter }

/-- Pixels that are painted to the end are what the brush covers. -/
theorem painted_of_paintPixels
    (done : paintPixels m.pen.color (m.canvas.covered centers size) m = .ok () m') :
    Painted centers size m m' := by
  obtain ⟨reporter, rfl⟩ := paintPixels_eq_ok done
  refine ⟨Canvas.width_lay _ _ _, Canvas.height_lay _ _ _, ?_, ?_, rfl⟩
  · intro q reached
    rw [Canvas.get_lay_covered, if_pos reached]
  · intro q other
    rw [Canvas.get_lay_covered, if_neg other]

/-- If the brush stays in range, painting is painting the pixels that it covers. -/
theorem paint_of_fits (fits : ∀ p ∈ centers, Brush.Fits size p) (m : Machine) :
    paint (m.canvas.coat centers size) m =
      paintPixels m.pen.color (m.canvas.covered centers size) m := by
  rw [paint_eq, m.canvas.coat_of_fits fits]
  cases paintPixels m.pen.color (m.canvas.covered centers size) m with
  | ok _ m' => rfl
  | error halt m' => rfl

/-- Painting that gets through has laid the color over what the brush covers. -/
theorem canvas_of_paint (done : paint (m.canvas.coat centers size) m = .ok () m') :
    (∀ p ∈ centers, Brush.Fits size p) ∧ ∃ reporter, m' = { m with
      canvas := m.canvas.lay m.pen.color (m.canvas.covered centers size), reporter } := by
  have painting := done
  rw [paint_eq] at painting
  obtain ⟨whole, -⟩ := settled_eq_ok painting
  have fits := (m.canvas.whole_coat centers size).1 whole
  rw [paint_of_fits fits] at done
  exact ⟨fits, paintPixels_eq_ok done⟩

/-- Painting that nobody stops gets through if the brush stays in range. -/
theorem exists_paint_of_fits (fits : ∀ p ∈ centers, Brush.Fits size p)
    (unhindered : Unhindered (paint (m.canvas.coat centers size) m)) :
    ∃ m', paint (m.canvas.coat centers size) m = .ok () m' := by
  rw [paint_of_fits fits] at unhindered ⊢
  obtain ⟨canvas, reporter, through | ⟨halt, outer, stopped⟩⟩ :=
    paintPixels_cases m.pen.color (m.canvas.covered centers size) m
  · exact ⟨_, through⟩
  · exact absurd (unhindered halt _ stopped) (disturbed_of_outer halt outer)

/-- Painting of a run that nobody cancels and whose pauses pass is not stopped from outside. -/
theorem paint_unhindered (coat : Coat) (free : m.reporter.Free)
    (passing : m.reporter.pace.Passing) : Unhindered (paint coat m) := by
  intro halt m' stopped
  obtain ⟨m₁, through⟩ := paint_of_free m.pen.color coat.pixels free passing
  rw [paint_eq, through, settled] at stopped
  split at stopped
  · cases stopped
  · cases stopped
    decide

/-- The first center where the brush leaves the range ends the painting. -/
theorem paint_breaks {front rest : List Point} {p : Point} (reach : ∀ q ∈ front, Brush.Fits size q)
    (leaves : ¬Brush.Fits size p)
    (unhindered : Unhindered (paint (m.canvas.coat (front ++ p :: rest) size) m)) :
    ∃ m', paint (m.canvas.coat (front ++ p :: rest) size) m = .error .overflow m' ∧
      Painted front size m m' := by
  have reached : (front ++ p :: rest).takeWhile (fun q => decide (Brush.Fits size q)) = front := by
    have stops : (p :: rest).takeWhile (fun q => decide (Brush.Fits size q)) = [] :=
      List.takeWhile_cons_of_neg (by simpa using leaves)
    rw [List.takeWhile_append_of_pos fun q member => decide_eq_true (reach q member), stops,
      List.append_nil]
  have broken : (m.canvas.coat (front ++ p :: rest) size).whole = false := by
    refine Bool.eq_false_iff.2 fun whole => leaves ?_
    exact (m.canvas.whole_coat _ size).1 whole p (by simp)
  rw [paint_eq, broken, Canvas.pixels_coat, reached] at unhindered ⊢
  obtain ⟨canvas, reporter, through | ⟨halt, outer, stopped⟩⟩ :=
    paintPixels_cases m.pen.color (m.canvas.covered front size) m
  · exact ⟨_, by rw [through]; rfl, painted_of_paintPixels through⟩
  · rw [stopped] at unhindered
    exact absurd (unhindered halt _ rfl) (disturbed_of_outer halt outer)

/-- **Painting blends every pixel once.** Whatever the centers are, in any order, repeated, on the
canvas or outside of it: if the brush stays in range at all of them then painting lays the color of
the pen over a list of pixels one after the other, and the list holds each pixel of the canvas that
is at most half the size of the brush away from some center, once, and no other pixel. If nobody
stops it, it gets through: the pixels that are reached take the color once, all others stay as they
were, and other centers that reach the same pixels, also with another brush or under another
reporter, give the same canvas.

If the brush leaves the range at some center then painting does not get through. It is broken off
there, and only what was reached from the centers in front of the first such center is painted. -/
theorem painting_blends_once (centers : List Point) (brush : Brush) (m : Machine) :
    (m.reporter.Free → m.reporter.pace.Passing →
      Unhindered (paint (m.canvas.coat centers brush.size) m)) ∧
    ((∀ p ∈ centers, Brush.Fits brush.size p) →
      (∃ ps : List Point, ps.Nodup ∧
        (∀ q, q ∈ ps ↔ m.canvas.Reached centers brush.size q) ∧
        paint (m.canvas.coat centers brush.size) m = paintPixels m.pen.color ps m) ∧
      (Unhindered (paint (m.canvas.coat centers brush.size) m) →
        ∃ m', paint (m.canvas.coat centers brush.size) m = .ok () m' ∧
          Painted centers brush.size m m' ∧
          ∀ (centers' : List Point) (brush' : Brush) (reporter : Reporter) (n : Machine),
            (∀ q, m.canvas.Reached centers brush.size q ↔
              m.canvas.Reached centers' brush'.size q) →
            paint (m.canvas.coat centers' brush'.size) { m with reporter } = .ok () n →
              n.canvas = m'.canvas)) ∧
    ∀ front p rest, centers = front ++ p :: rest → (∀ q ∈ front, Brush.Fits brush.size q) →
      ¬Brush.Fits brush.size p → Unhindered (paint (m.canvas.coat centers brush.size) m) →
      ∃ m', paint (m.canvas.coat centers brush.size) m = .error .overflow m' ∧
        Painted front brush.size m m' := by
  refine ⟨paint_unhindered _, fun fits => ⟨?_, fun unhindered => ?_⟩, ?_⟩
  · exact ⟨m.canvas.covered centers brush.size, m.canvas.nodup_covered _ _,
      fun q => Canvas.mem_covered_iff, paint_of_fits fits m⟩
  · obtain ⟨m', through⟩ := exists_paint_of_fits fits unhindered
    refine ⟨m', through, painted_of_paintPixels (paint_of_fits fits m ▸ through), ?_⟩
    intro centers' brush' reporter n same done
    obtain ⟨-, _, rfl⟩ := canvas_of_paint through
    obtain ⟨-, _, rfl⟩ := canvas_of_paint (m := { m with reporter }) done
    exact (Canvas.lay_covered_congr m.pen.color same).symm
  · rintro front p rest rfl reach leaves unhindered
    exact paint_breaks reach leaves unhindered

/-- A machine with a pen whose color shines through. -/
def withSoftPen : Machine where
  canvas := .blank 4 3
  pen := { color := ⟨0, 0, 0, 128⟩ }
  reporter := { pace := {} }

/-- The brush of three by three pixels. -/
def broad : Brush := ⟨3, rfl⟩

/-- Three squares that overlap, one of them twice, and one far away: the pixels in the middle are as
dark as all others, and putting the brush down in another order gives the same picture. -/
theorem soft_pen_blends_once :
    ∃ m', paint (withSoftPen.canvas.coat [⟨1, 1⟩, ⟨2, 1⟩, ⟨1, 1⟩, ⟨70, -9⟩] broad.size)
        withSoftPen = .ok () m' ∧
      m'.canvas.get ⟨1, 1⟩ = .rgb 127 127 127 ∧ m'.canvas.get ⟨3, 2⟩ = .rgb 127 127 127 ∧
      ∀ n, paint (withSoftPen.canvas.coat [⟨2, 1⟩, ⟨1, 1⟩] broad.size) withSoftPen = .ok () n →
        n.canvas = m'.canvas := by
  obtain ⟨free, paints, -⟩ :=
    painting_blends_once [⟨1, 1⟩, ⟨2, 1⟩, ⟨1, 1⟩, ⟨70, -9⟩] broad withSoftPen
  obtain ⟨m', through, painted, congr⟩ := (paints (by decide)).2 (free ⟨rfl, rfl⟩ (by decide))
  refine ⟨m', through, ?_, ?_, fun n done => congr _ broad withSoftPen.reporter n ?_ done⟩
  · exact (painted.reached _ (by decide)).trans (by decide)
  · exact (painted.reached _ (by decide)).trans (by decide)
  · intro q
    refine and_congr_right fun inside => ?_
    -- the center far away reaches nothing, and the repeated one nothing new
    have far : ¬(⟨70, -9⟩ : Point).distance q ≤ broad.size / 2 := by
      obtain ⟨⟨_, _⟩, _, _⟩ : (0 ≤ q.x ∧ q.x < 4) ∧ 0 ≤ q.y ∧ q.y < 3 := inside
      simp only [Point.distance, broad]
      omega
    simp only [List.mem_cons, List.not_mem_nil, or_false, exists_eq_or_imp, exists_eq_left, far]
    constructor
    · rintro (near | near)
      · exact Or.inr near
      · exact near
    · exact Or.inr

/-- A program whose last circle is near the end of the integers, where a brush of five pixels leaves
the range: its outline is in range, but its rightmost point has no room for the brush. -/
def atTheEnd : Program where
  stmts := [
    ⟨⟨1, 1⟩, .spawn (.lit ⟨1, 7⟩ (.int .zero)) (.lit ⟨1, 10⟩ (.int .zero))⟩,
    ⟨⟨2, 1⟩, .drawLine (.lit ⟨2, 10⟩ (.int .one)) (.lit ⟨2, 13⟩ (.int .zero))
      (.lit ⟨2, 16⟩ (.int (.saturate 9223372036854775807)))⟩,
    ⟨⟨3, 1⟩, .size (.lit ⟨3, 6⟩ (.int (.saturate 5)))⟩,
    ⟨⟨4, 1⟩, .drawCircle (.unary ⟨4, 12⟩ .neg (.lit ⟨4, 13⟩ (.int .one)))
      (.lit ⟨4, 16⟩ (.int .zero)) (.lit ⟨4, 19⟩ (.int .one))⟩]

/-- Painting that nobody stops need not get through: the brush of five pixels reaches no pixel from
its centers, and nothing is painted, but the run is broken off. -/
theorem broad_brush_breaks_off :
    (∀ q, ¬(Canvas.blank 8 8).Reached
      (Circle.outline ⟨9223372036854775805, 0⟩ 1) 5 q) ∧
      (run (fun _ => 0) atTheEnd 10 (fresh (.blank 8 8) {} .never 0)).1 = .overflow := by
  refine ⟨?_, by decide +kernel⟩
  rintro q ⟨inside, p, member, near⟩
  obtain ⟨⟨_, _⟩, _, _⟩ : (0 ≤ q.x ∧ q.x < 8) ∧ 0 ≤ q.y ∧ q.y < 8 := inside
  have outline : Circle.outline ⟨9223372036854775805, 0⟩ 1 =
      [⟨9223372036854775805, 1⟩, ⟨9223372036854775805, -1⟩, ⟨9223372036854775806, 0⟩,
        ⟨9223372036854775804, 0⟩] := by decide +kernel
  simp only [outline, List.mem_cons, List.not_mem_nil, or_false] at member
  rw [Point.distance] at near
  rcases member with rfl | rfl | rfl | rfl <;> dsimp only at near <;> omega

end Machine

/-! ### What is listed of a stroke -/

instance (c : Canvas) (margin : Nat) (p : Point) : Decidable (c.Borders margin p) :=
  inferInstanceAs (Decidable (_ ∧ _))

namespace Stroke

/-- All points of the stroke, in order. -/
def points (s : Stroke) : List Point :=
  (List.range s.steps.toNat).map fun (i : Nat) => s.point i

/-- The points of a stroke are those of the steps from zero on. -/
theorem points_eq (s : Stroke) : s.points = (Span.mk 0 s.steps).toList.map s.point := by
  simp only [points, Span.toList, List.map_map, Int.sub_zero]
  refine List.map_congr_left fun i _ => ?_
  rw [Function.comp, Int.zero_add]

/-- **What is listed of a stroke** are the points of the whole stroke from which the brush can reach
the canvas, in their order. -/
theorem visible_eq_filter (s : Stroke) (c : Canvas) (size : Nat) :
    s.visible c size = s.points.filter fun p => c.Borders (size / 2) p := by
  rw [points_eq, List.filter_map, visible]
  refine congrArg (List.map s.point) (Span.filter_toList fun i => ?_).symm
  rw [Span.mem_inter, mem_visibleSteps, mem_visibleSteps]
  constructor
  · rintro ⟨⟨within, near_x⟩, -, near_y⟩
    exact ⟨within, near_x, near_y⟩
  · rintro ⟨within, near_x, near_y⟩
    exact ⟨⟨within, near_x⟩, within, near_y⟩

end Stroke

/-! ### What is painted of a stroke -/

namespace Canvas

variable (c : Canvas) (size : Nat)

/-- A brush that is put down too far away from the canvas covers no pixel of it. -/
theorem footprint_eq_nil {p : Point} (far : ¬c.Borders (size / 2) p) : c.footprint size p = [] := by
  refine List.eq_nil_iff_forall_not_mem.2 fun q member => ?_
  obtain ⟨under, inside⟩ := mem_region.1 member
  exact far (Under.borders under inside)

/-- Centers that are too far away can be left out: the same pixels are covered, in the same
order. -/
theorem covered_filter_borders (centers : List Point) :
    c.covered (centers.filter fun p => c.Borders (size / 2) p) size = c.covered centers size := by
  have same : (centers.filter fun p => c.Borders (size / 2) p).flatMap (c.footprint size) =
      centers.flatMap (c.footprint size) := by
    induction centers with
    | nil => rfl
    | cons p centers ih =>
        by_cases near : c.Borders (size / 2) p
        · rw [List.filter_cons_of_pos (by simpa using near), List.flatMap_cons, List.flatMap_cons,
            ih]
        · rw [List.filter_cons_of_neg (by simpa using near), List.flatMap_cons,
            c.footprint_eq_nil size near, ih, List.nil_append]
  rw [covered, covered, same]

end Canvas

namespace Machine

/-- **Clipping is invisible.** Of a stroke that starts anywhere, has any number of steps and goes in
any direction, exactly the points with both coordinates within half the brush of the canvas are
listed, in the order of the stroke. They cover the same pixels as the whole stroke, in the same
order. If the brush stays in range at the points that are listed, painting them is painting all
pixels that the whole stroke covers, whatever is reported and whenever it is stopped from outside;
and if it stays in range on the whole stroke, it is painting the whole stroke. If the brush leaves
the range at a point that is listed, painting does not get through. -/
theorem clipping_is_invisible (s : Stroke) (brush : Brush) (m : Machine) :
    s.visible m.canvas brush.size =
        (s.points.filter fun p => m.canvas.Borders (brush.size / 2) p) ∧
      m.canvas.covered (s.visible m.canvas brush.size) brush.size =
        m.canvas.covered s.points brush.size ∧
      ((∀ p ∈ s.visible m.canvas brush.size, Brush.Fits brush.size p) →
        paint (m.canvas.coat (s.visible m.canvas brush.size) brush.size) m =
          paintPixels m.pen.color (m.canvas.covered s.points brush.size) m) ∧
      ((∀ p ∈ s.points, Brush.Fits brush.size p) →
        paint (m.canvas.coat (s.visible m.canvas brush.size) brush.size) m =
          paint (m.canvas.coat s.points brush.size) m) ∧
      ((∃ p ∈ s.visible m.canvas brush.size, ¬Brush.Fits brush.size p) →
        ∀ m', paint (m.canvas.coat (s.visible m.canvas brush.size) brush.size) m ≠ .ok () m') := by
  have listed := s.visible_eq_filter m.canvas brush.size
  have same : m.canvas.covered (s.visible m.canvas brush.size) brush.size =
      m.canvas.covered s.points brush.size := by
    rw [listed, m.canvas.covered_filter_borders]
  refine ⟨listed, same, fun fits => ?_, fun fits => ?_, ?_⟩
  · rw [paint_of_fits fits, same]
  · have seen : ∀ p ∈ s.visible m.canvas brush.size, Brush.Fits brush.size p := by
      intro p member
      rw [listed] at member
      exact fits p (List.mem_of_mem_filter member)
    rw [paint_of_fits seen, paint_of_fits fits, same]
  · rintro ⟨p, member, leaves⟩ m' done
    exact leaves ((canvas_of_paint done).1 p member)

/-- The longest of all strokes, with a broad brush: what is listed of it is painted as if all of it
were. -/
theorem longest_stroke_is_clipped :
    Stroke.visible ⟨⟨0, 1⟩, ⟨.pos, .zero⟩, 9223372036854775807⟩ withSoftPen.canvas broad.size =
        [⟨0, 1⟩, ⟨1, 1⟩, ⟨2, 1⟩, ⟨3, 1⟩, ⟨4, 1⟩] ∧
      paint (withSoftPen.canvas.coat
          [⟨0, 1⟩, ⟨1, 1⟩, ⟨2, 1⟩, ⟨3, 1⟩, ⟨4, 1⟩] broad.size) withSoftPen =
        paintPixels withSoftPen.pen.color (withSoftPen.canvas.covered
          (Stroke.points ⟨⟨0, 1⟩, ⟨.pos, .zero⟩, 9223372036854775807⟩) broad.size) withSoftPen := by
  have listed : Stroke.visible ⟨⟨0, 1⟩, ⟨.pos, .zero⟩, 9223372036854775807⟩ withSoftPen.canvas
      broad.size = [⟨0, 1⟩, ⟨1, 1⟩, ⟨2, 1⟩, ⟨3, 1⟩, ⟨4, 1⟩] := by decide
  obtain ⟨-, -, paints, -⟩ := clipping_is_invisible
    ⟨⟨0, 1⟩, ⟨.pos, .zero⟩, 9223372036854775807⟩ broad withSoftPen
  rw [listed] at paints
  exact ⟨listed, paints (by decide)⟩

/-- A program whose last stroke is one point, with the broadest of all brushes. -/
def broadest : Program where
  stmts := [
    ⟨⟨1, 1⟩, .spawn (.lit ⟨1, 7⟩ (.int .zero)) (.lit ⟨1, 10⟩ (.int .zero))⟩,
    ⟨⟨2, 1⟩, .drawLine (.lit ⟨2, 10⟩ (.int .one)) (.lit ⟨2, 13⟩ (.int .zero))
      (.lit ⟨2, 16⟩ (.int (.saturate 4611686018427387906)))⟩,
    ⟨⟨3, 1⟩, .size (.lit ⟨3, 6⟩ (.int (.saturate 9223372036854775807)))⟩,
    ⟨⟨4, 1⟩, .drawLine (.lit ⟨4, 10⟩ (.int .one)) (.lit ⟨4, 13⟩ (.int .zero))
      (.lit ⟨4, 16⟩ (.int .one))⟩]

/-- Painting what is listed of a stroke need not write the pixels of the stroke: the one point of
this stroke is listed, and the brush reaches the canvas from there, but the run is broken off. -/
theorem broadest_stroke_breaks_off :
    Stroke.visible ⟨⟨4611686018427387905, 0⟩, ⟨.pos, .zero⟩, 1⟩ (.blank 4 4) 9223372036854775807 =
        [⟨4611686018427387905, 0⟩] ∧
      (Canvas.blank 4 4).Reached [⟨4611686018427387905, 0⟩] 9223372036854775807 ⟨2, 3⟩ ∧
      (run (fun _ => 0) broadest 10 (fresh (.blank 4 4) {} .never 0)).1 = .overflow := by
  refine ⟨by decide, by decide, by decide +kernel⟩

end Machine

end PenScript
