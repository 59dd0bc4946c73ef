import PenScript.Proofs.Range

/-!
# The border of a rectangle

The outline of a rectangle is walked in four strokes, and the far corner stays within the range of
integers: where it would lie beyond the largest integer, it is moved back. The two strokes that
leave the far corner toward the near one keep their lengths, so they start too early and run over
the near corner by as much as the far one was moved. On a canvas of any usual size the far corner
itself is out of sight then, but the end of such a stroke is not.

## Main definitions

* `Rectangle.Border` — the border of a rectangle of the unbounded plane;
* `Rectangle.excess` — how far an extent reaches beyond the largest integer;
* `Rectangle.Overshoot` — the points by which the strokes run over the near corner.

## Main results

* `Rectangle.nodup_outline`: no point of an outline is listed twice;
* `Rectangle.outlines_of_rectangles`: the outline is the border and the overshoot, as far as the
  brush reaches the canvas from there;
* `Rectangle.outline_leaves_the_rectangle`: a rectangle whose outline is not its border.
-/

namespace PenScript

open Integer

/-! ### Strokes step by step -/

namespace Stroke

variable {s : Stroke} {p : Point}

/-- A stroke that moves is at a different point after every step. -/
theorem stepsTo_point (moves : s.heading ≠ .none) (i : Int) : s.stepsTo (s.point i) = i := by
  rcases s with ⟨start, ⟨dx, dy⟩, steps⟩
  rcases dx with _ | _ | _
  · simp only [stepsTo, point, Heading.stepsFrom, Sign.toInt, reduceCtorEq, if_false]
    omega
  · rcases dy with _ | _ | _
    · simp only [stepsTo, point, Heading.stepsFrom, Sign.toInt, if_true]
      omega
    · exact absurd rfl moves
    · simp only [stepsTo, point, Heading.stepsFrom, Sign.toInt, if_true]
      omega
  · simp only [stepsTo, point, Heading.stepsFrom, Sign.toInt, reduceCtorEq, if_false]
    omega

/-- A stroke that moves passes a point exactly if it covers it. -/
theorem visits_iff_covers (moves : s.heading ≠ .none) : s.Visits p ↔ s.Covers p := by
  constructor
  · rintro ⟨i, within, rfl⟩
    rw [Covers, stepsTo_point moves]
    exact ⟨within, rfl⟩
  · exact Covers.visits

/-- A stroke that moves shows no point twice. -/
theorem nodup_visible (moves : s.heading ≠ .none) (c : Canvas) (size : Nat) :
    (s.visible c size).Nodup := by
  have injective : Function.Injective s.point :=
    Function.LeftInverse.injective (stepsTo_point moves)
  exact (Span.pairwise_toList _).nodup.map injective

end Stroke

namespace Rectangle

variable {c : Canvas} {size : Nat} {corner p : Point} {width height : Int}

/-! ### No point twice -/

/-- Strokes that move show no point twice, because each one leaves out what an earlier one has
covered. -/
theorem nodup_trace {earlier rest : List Stroke} (moves : ∀ s ∈ rest, s.heading ≠ .none) :
    (trace c size earlier rest).Nodup := by
  induction rest generalizing earlier with
  | nil => exact List.nodup_nil
  | cons s rest ih =>
      obtain ⟨here, later⟩ := List.forall_mem_cons.1 moves
      refine List.nodup_append.2 ⟨(Stroke.nodup_visible here c size).filter _, ih later, ?_⟩
      rintro q first _ second rfl
      have visits := (Stroke.mem_visible.1 (List.mem_filter.1 first).1).1
      have uncovered := (mem_trace.1 second).2 s List.mem_cons_self
      exact uncovered ((Stroke.visits_iff_covers here).1 visits)

/-- All sides of a rectangle move. -/
theorem moves_of_mem_sides {s : Stroke} (side : s ∈ sides corner width height) :
    s.heading ≠ .none := by
  simp only [sides, List.mem_cons, List.not_mem_nil, or_false] at side
  rcases side with rfl | rfl | rfl | rfl <;> simp [Heading.none]

/-- No point of an outline is listed twice. -/
theorem nodup_outline (c : Canvas) (corner : Point) (width height : Int) (size : Nat) :
    (outline c corner width height size).Nodup :=
  nodup_trace fun _ => moves_of_mem_sides

/-! ### Sides and border -/

/-- A point on the border of the rectangle that reaches from its corner over `width` columns and
`height` rows of the unbounded plane. -/
def Border (corner : Point) (width height : Int) (p : Point) : Prop :=
  (p.x ∈ Span.mk corner.x (corner.x + width) ∧ p.y ∈ Span.mk corner.y (corner.y + height)) ∧
    ((p.x = corner.x ∨ p.x = corner.x + width - 1) ∨
      p.y = corner.y ∨ p.y = corner.y + height - 1)

instance (corner : Point) (width height : Int) (p : Point) :
    Decidable (Border corner width height p) :=
  inferInstanceAs (Decidable (_ ∧ _))

/-- How far the last of `extent` numbers from `first` on lies beyond the largest integer. -/
def excess (first extent : Int) : Int :=
  max 0 (first + extent - 1 - 9223372036854775807)

/-- The points by which the strokes that come back from the far corner run over the near one: beside
the last row, to the left, and on top of the first column. -/
def Overshoot (corner : Point) (width height : Int) (p : Point) : Prop :=
  (p.y = corner.y + height - 1 ∧
      p.x ∈ Span.mk (corner.x - excess corner.x width) corner.x) ∨
    (p.x = corner.x ∧ p.y ∈ Span.mk (corner.y - excess corner.y height) corner.y)

instance (corner : Point) (width height : Int) (p : Point) :
    Decidable (Overshoot corner width height p) :=
  inferInstanceAs (Decidable (_ ∨ _))

/-- The far corner is moved back by as much as it lies beyond the largest integer. -/
theorem saturate_last (first extent : Integer) (positive : 0 < extent.val) :
    (saturate (first.val + (extent.val - 1))).val =
      first.val + extent.val - 1 - excess first.val extent.val := by
  have := first.lo_le
  simp only [saturate, excess]
  omega

variable {x y w t : Integer}

/-- The overshoot is no part of the border. -/
theorem Overshoot.not_border (overshoot : Overshoot corner width height p) :
    ¬Border corner width height p := by
  simp only [Overshoot, Border, Span.mem_def] at overshoot ⊢
  omega

/-- The points of the four sides, one side after the other. Two of them start in the far corner and
keep their lengths. -/
theorem visits_sides (wide : 0 < w.val) (high : 0 < t.val) :
    (∃ s ∈ sides ⟨x.val, y.val⟩ w.val t.val, s.Visits p) ↔
      (p.y = y.val ∧ p.x ∈ Span.mk x.val (x.val + w.val)) ∨
        (p.x = x.val + w.val - 1 - excess x.val w.val ∧ p.y ∈ Span.mk y.val (y.val + t.val)) ∨
        (p.y = y.val + t.val - 1 - excess y.val t.val ∧
          p.x ∈ Span.mk (x.val - excess x.val w.val) (x.val + w.val - excess x.val w.val)) ∨
        (p.x = x.val ∧
          p.y ∈ Span.mk (y.val - excess y.val t.val) (y.val + t.val - excess y.val t.val)) := by
  have covers : (∃ s ∈ sides ⟨x.val, y.val⟩ w.val t.val, s.Visits p) ↔
      ∃ s ∈ sides ⟨x.val, y.val⟩ w.val t.val, s.Covers p :=
    exists_congr fun s => and_congr_right fun side =>
      Stroke.visits_iff_covers (moves_of_mem_sides side)
  rw [covers]
  rcases p with ⟨px, py⟩
  simp only [sides, saturate_last x w wide, saturate_last y t high, List.mem_cons,
    List.not_mem_nil, or_false, exists_eq_or_imp, exists_eq_left, Stroke.Covers, Stroke.stepsTo,
    Stroke.point, Heading.stepsFrom, Sign.toInt, Point.mk.injEq, reduceCtorEq, if_true, if_false,
    Span.mem_def]
  refine or_congr ?_ (or_congr ?_ (or_congr ?_ ?_)) <;> omega

/-- If the far corner is in range then the outline is the border, as far as the brush reaches the
canvas from it. -/
theorem mem_outline_of_inRange (wide : 0 < w.val) (high : 0 < t.val)
    (right : InRange (x.val + w.val - 1)) (bottom : InRange (y.val + t.val - 1)) :
    p ∈ outline c ⟨x.val, y.val⟩ w.val t.val size ↔
      Border ⟨x.val, y.val⟩ w.val t.val p ∧ c.Borders (size / 2) p := by
  rw [mem_outline, visits_sides wide high]
  refine and_congr_left fun _ => ?_
  simp only [Border, excess, InRange, Span.mem_def] at right bottom ⊢
  omega

/-- On a canvas that ends in front of the largest integer, also for the brush, the outline is the
border and the overshoot. The far corner cannot be seen where it is moved. -/
theorem mem_outline_of_room (wide : 0 < w.val) (high : 0 < t.val)
    (columns : InRange (c.width + (size / 2 : Nat)))
    (rows : InRange (c.height + (size / 2 : Nat))) :
    p ∈ outline c ⟨x.val, y.val⟩ w.val t.val size ↔
      (Border ⟨x.val, y.val⟩ w.val t.val p ∨ Overshoot ⟨x.val, y.val⟩ w.val t.val p) ∧
        c.Borders (size / 2) p := by
  rw [mem_outline, visits_sides wide high]
  refine and_congr_left fun near => ?_
  have := x.le_hi
  have := y.le_hi
  -- what is near the canvas is in front of the largest integer, where nothing is moved to
  have column : p.x < 9223372036854775807 := by
    simp only [Canvas.Borders, InRange] at near columns
    omega
  have row : p.y < 9223372036854775807 := by
    simp only [Canvas.Borders, InRange] at near rows
    omega
  simp only [Border, Overshoot, excess, Span.mem_def]
  constructor
  · rintro (top | right | bottom | left)
    · exact Or.inl (by omega)
    · exact Or.inl (by omega)
    · rcases Int.lt_or_le p.x x.val with before | behind
      · exact Or.inr (Or.inl (by omega))
      · exact Or.inl (by omega)
    · rcases Int.lt_or_le p.y y.val with before | behind
      · exact Or.inr (Or.inr (by omega))
      · exact Or.inl (by omega)
  · rintro (⟨within, (left | right) | top | bottom⟩ | bottom | left)
    · exact Or.inr (Or.inr (Or.inr (by omega)))
    · exact Or.inr (Or.inl (by omega))
    · exact Or.inl (by omega)
    · exact Or.inr (Or.inr (Or.inl (by omega)))
    · exact Or.inr (Or.inr (Or.inl (by omega)))
    · exact Or.inr (Or.inr (Or.inr (by omega)))

/-- **The outline of a rectangle**, whatever its corner and however wide and high it is. No point is
listed twice. If the far corner is an integer of the language then exactly the points of the border
are listed from which the brush reaches the canvas. On a canvas that ends in front of the largest
integer, also for the brush, exactly the points of the border and of the overshoot are listed from
which the brush reaches the canvas; so the border alone is listed just if the overshoot cannot be
seen. -/
theorem outlines_of_rectangles (c : Canvas) (x y w t : Integer) (brush : Brush) (wide : 0 < w.val)
    (high : 0 < t.val) :
    (outline c ⟨x.val, y.val⟩ w.val t.val brush.size).Nodup ∧
      (InRange (x.val + w.val - 1) → InRange (y.val + t.val - 1) → ∀ p,
        p ∈ outline c ⟨x.val, y.val⟩ w.val t.val brush.size ↔
          Border ⟨x.val, y.val⟩ w.val t.val p ∧ c.Borders (brush.size / 2) p) ∧
      (InRange (c.width + (brush.size / 2 : Nat)) → InRange (c.height + (brush.size / 2 : Nat)) →
        (∀ p, p ∈ outline c ⟨x.val, y.val⟩ w.val t.val brush.size ↔
          (Border ⟨x.val, y.val⟩ w.val t.val p ∨ Overshoot ⟨x.val, y.val⟩ w.val t.val p) ∧
            c.Borders (brush.size / 2) p) ∧
        ((∀ p, p ∈ outline c ⟨x.val, y.val⟩ w.val t.val brush.size ↔
            Border ⟨x.val, y.val⟩ w.val t.val p ∧ c.Borders (brush.size / 2) p) ↔
          ∀ p, Overshoot ⟨x.val, y.val⟩ w.val t.val p → ¬c.Borders (brush.size / 2) p)) := by
  refine ⟨nodup_outline _ _ _ _ _, fun right bottom p => ?_, fun columns rows => ⟨fun p => ?_, ?_⟩⟩
  · exact mem_outline_of_inRange wide high right bottom
  · exact mem_outline_of_room wide high columns rows
  · constructor
    · intro exact p overshoot near
      have member := (mem_outline_of_room wide high columns rows).2 ⟨Or.inr overshoot, near⟩
      exact overshoot.not_border ((exact p).1 member).1
    · intro unseen p
      rw [mem_outline_of_room wide high columns rows]
      constructor
      · rintro ⟨border | overshoot, near⟩
        · exact ⟨border, near⟩
        · exact absurd near (unseen p overshoot)
      · rintro ⟨border, near⟩
        exact ⟨Or.inl border, near⟩

/-- The outline of the widest of all rectangles, with its left side in the third column: one point
of it lies in the second one. -/
theorem widest_rectangle_overshoots :
    (outline (.blank 8 8) ⟨2, 0⟩ 9223372036854775807 3 1).Nodup ∧
      ∀ p, p ∈ outline (.blank 8 8) ⟨2, 0⟩ 9223372036854775807 3 1 ↔
        (Border ⟨2, 0⟩ 9223372036854775807 3 p ∨ p = ⟨1, 2⟩) ∧
          (Canvas.blank 8 8).Borders 0 p := by
  obtain ⟨nodup, -, listed⟩ := outlines_of_rectangles (.blank 8 8) (.saturate 2) .zero
    (.saturate 9223372036854775807) (.saturate 3) .single (by decide) (by decide)
  refine ⟨nodup, fun p => ?_⟩
  have single : p = ⟨1, 2⟩ ↔ Overshoot ⟨2, 0⟩ 9223372036854775807 3 p := by
    rcases p with ⟨px, py⟩
    simp only [Overshoot, excess, Span.mem_def, Point.mk.injEq]
    omega
  rw [single]
  exact (listed (by decide) (by decide)).1 p

/-- A program that draws the outline of the widest of all rectangles. -/
def widestText : String :=
  "Spawn(0, 0)\nDrawRectangle(1, 0, 2, 9223372036854775807, 3)\n"

/-- The program of `widestText`. -/
def widest : Program :=
  (compile widestText).toOption.getD {}

/-- **An outline that leaves its rectangle.** The program is accepted and runs to its end. Its
rectangle starts in the third column, and a pixel of the second column is painted. -/
theorem outline_leaves_the_rectangle :
    compile widestText = .ok widest ∧
      (Machine.run (fun _ => 0) widest 10000 Machine.chessboard).1 = .completed ∧
      (Machine.run (fun _ => 0) widest 10000 Machine.chessboard).2.canvas.get ⟨1, 2⟩ = .black ∧
      (⟨1, 2⟩ : Point) ∈ outline (.blank 8 8) ⟨2, 0⟩ 9223372036854775807 3 1 ∧
      ¬Border ⟨2, 0⟩ 9223372036854775807 3 ⟨1, 2⟩ := by
  refine ⟨Machine.ok_of_isOk _ (by decide +kernel), by decide +kernel, by decide +kernel, ?_, ?_⟩
  · decide
  · decide

end Rectangle

end PenScript
