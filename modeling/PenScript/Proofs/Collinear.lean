import PenScript.Proofs.Constant
import PenScript.Proofs.Coverage
import PenScript.Proofs.Exactness
import PenScript.Proofs.Flooding

/-!
# Strokes that go on in one direction

A stroke leaves the pen at its last point, so a second stroke in the same direction starts with a
point that was drawn before. With an opaque color nobody sees that: two such strokes draw what one
stroke over all of their points draws, and leave the pen where it does. And they succeed together:
the pen only moves away from where it was in every coordinate, so if the end of the long stroke is
in range then so is the place between the two short ones; and whether the brush stays in range is
asked at the points that are near the canvas, which are the same ones.

## Main definitions

* `Machine.DrawsLine` — a statement that draws a stroke, its arguments read on some machine;
* `Machine.Admits` — the numbers of a stroke stay in range;
* `Machine.Stroked` — what a stroke leaves of a machine;
* `Machine.execBoth` — two statements, one after the other.

## Main results

* `Stroke.visits_append`: the points of two strokes, one of which starts where the other one ends;
* `Canvas.lay_lay_of_opaque`: an opaque color that is laid twice;
* `Machine.Stroked.append`: what two strokes leave is what one stroke leaves;
* `Machine.collinear_strokes_compose`: two strokes draw what one does, and fail where it does.
-/

namespace PenScript

/-! ### The points of two strokes -/

/-- The pen is in range. -/
theorem Pen.point_inRange (pen : Pen) : pen.point.InRange :=
  ⟨pen.x.inRange, pen.y.inRange⟩

namespace Heading

variable {h : Heading} {p : Point} {i j : Int}

/-- Steps behind steps add up. -/
theorem stepsFrom_stepsFrom : h.stepsFrom (h.stepsFrom p i) j = h.stepsFrom p (i + j) := by
  simp only [stepsFrom, Int.mul_add, Int.add_assoc]

/-- A place between two places in range is in range. -/
theorem stepsFrom_inRange (start : p.InRange) (stop : (h.stepsFrom p j).InRange) (early : 0 ≤ i)
    (late : i ≤ j) : (h.stepsFrom p i).InRange := by
  have between {z : Int} (sign : Sign) (here : Integer.InRange z)
      (there : Integer.InRange (z + sign.toInt * j)) : Integer.InRange (z + sign.toInt * i) := by
    simp only [Integer.InRange] at here there ⊢
    cases sign with
    | neg => simp only [Sign.toInt] at there ⊢; omega
    | zero => simp only [Sign.toInt] at there ⊢; omega
    | pos => simp only [Sign.toInt] at there ⊢; omega
  exact ⟨between h.dx start.1 stop.1, between h.dy start.2 stop.2⟩

end Heading

namespace Stroke

variable {start p : Point} {h : Heading} {n k : Int}

/-- A stroke and one that starts at its last point have the points of one stroke. -/
theorem visits_append (first : 1 ≤ n) (second : 1 ≤ k) :
    Visits ⟨start, h, n + k - 1⟩ p ↔
      Visits ⟨start, h, n⟩ p ∨ Visits ⟨h.stepsFrom start (n - 1), h, k⟩ p := by
  simp only [Visits, point, Heading.stepsFrom_stepsFrom]
  constructor
  · rintro ⟨i, ⟨early, late⟩, at_i⟩
    by_cases before : i < n
    · exact Or.inl ⟨i, ⟨early, before⟩, at_i⟩
    · refine Or.inr ⟨i - (n - 1), ⟨by omega, by omega⟩, ?_⟩
      rwa [Int.add_comm, Int.sub_add_cancel]
  · rintro (⟨i, ⟨early, late⟩, at_i⟩ | ⟨i, ⟨early, late⟩, at_i⟩)
    · exact ⟨i, ⟨early, by omega⟩, at_i⟩
    · exact ⟨n - 1 + i, ⟨by omega, by omega⟩, at_i⟩

end Stroke

/-! ### An opaque color that is laid twice -/

namespace Canvas

variable {c : Canvas} {color : Color} {first second both : List Point} {size : Nat}

/-- Colors do not matter for what a brush reaches. -/
theorem reached_lay {ps centers : List Point} {q : Point} :
    (c.lay color ps).Reached centers size q ↔ c.Reached centers size q := by
  rw [Reached, Reached, contains_lay]

/-- An opaque color that is laid over some pixels and then over others is laid over all of them. -/
theorem lay_lay_of_opaque (full : color.a = 255)
    (same : ∀ q, c.Reached both size q ↔ c.Reached first size q ∨ c.Reached second size q) :
    (c.lay color (c.covered first size)).lay color
        ((c.lay color (c.covered first size)).covered second size) =
      c.lay color (c.covered both size) := by
  refine ext_get (by simp) (by simp) fun q => ?_
  simp only [get_lay_covered, reached_lay, same, Color.onto_of_opaque full]
  by_cases early : c.Reached first size q <;> by_cases late : c.Reached second size q <;>
    simp [early, late]

/-- What a brush reaches from the visible points of a stroke. -/
theorem reached_visible {s : Stroke} {q : Point} :
    c.Reached (s.visible c size) size q ↔
      c.Contains q ∧ ∃ p, s.Visits p ∧ Under size p q := by
  rw [← mem_covered_iff]
  exact Figure.covered_of_borders fun p => Stroke.mem_visible

/-- Colors do not matter for what is visible of a stroke. -/
theorem reached_visible_lay {s : Stroke} {ps : List Point} {q : Point} :
    c.Reached (s.visible (c.lay color ps) size) size q ↔
      c.Contains q ∧ ∃ p, s.Visits p ∧ Under size p q := by
  rw [← reached_lay, reached_visible, contains_lay]

end Canvas

/-! ### Executing a stroke -/

namespace Machine

/-- The statement draws a stroke, and on this machine its arguments read as a direction and a number
of points. -/
def DrawsLine (dice : Nat → Nat) (s : Stmt) (m : Machine) (h : Heading) (n : Integer) : Prop :=
  ∃ dx dy distance throws₁ throws₂, s.kind = .drawLine dx dy distance ∧
    (m.scene dice).heading .drawLine dx dy m.throws = .ok (h, throws₁) ∧
    (m.scene dice).integer (.argument 3 Command.drawLine.name) distance throws₁ = .ok (n, throws₂)

/-- The numbers of a stroke stay in range: its last point, where the pen is left, and at its points
near the canvas the brush. -/
structure Admits (h : Heading) (n : Integer) (m : Machine) : Prop where
  stop : (h.stepsFrom m.pen.point (n.val - 1)).InRange
  room : ∀ p, Stroke.Visits ⟨m.pen.point, h, n.val⟩ p →
    m.canvas.Borders (m.pen.brush.size / 2) p → p.InRange ∧ Brush.Fits m.pen.brush.size p

/-- What a stroke leaves: the color lies over what the brush covers from the points of the stroke,
the pen is at the last point, and nothing else about the pen has changed. -/
structure Stroked (h : Heading) (n : Integer) (m m' : Machine) : Prop where
  canvas : m'.canvas = m.canvas.lay m.pen.color (m.canvas.covered
    (Stroke.visible ⟨m.pen.point, h, n.val⟩ m.canvas m.pen.brush.size) m.pen.brush.size)
  place : m'.pen.point = h.stepsFrom m.pen.point (n.val - 1)
  pen : m'.pen = m.pen.moveTo m'.pen.x m'.pen.y

variable {dice : Nat → Nat} {s : Stmt} {m m' : Machine} {h : Heading} {n : Integer}

/-- Constant arguments read the same on every machine. -/
theorem drawsLine_of_constants {dx dy distance : Expr} {σx σy : Integer}
    (kind : s.kind = .drawLine dx dy distance) (column : dx.constantInt? = some σx)
    (row : dy.constantInt? = some σy) (length : distance.constantInt? = some n)
    (toX : h.dx.toInt = σx.val) (toY : h.dy.toInt = σy.val) (m : Machine) :
    DrawsLine dice s m h n := by
  have component {e : Expr} {v : Integer} {σ : Sign} (constant : e.constantInt? = some v)
      (value : σ.toInt = v.val) (i throws : Nat) :
      (m.scene dice).sign .drawLine i e throws = .ok (σ, throws) := by
    rw [Scene.sign, (m.scene dice).integer_of_constant constant, pure_bind,
      Sign.ofInt?_eq_some_iff.2 value]
    rfl
  have length := (m.scene dice).integer_of_constant length (.argument 3 Command.drawLine.name)
  refine ⟨dx, dy, distance, m.throws, m.throws, kind, ?_, by rw [length]; rfl⟩
  rw [Scene.heading, Eval.bind_of_ok (component column toX 1 m.throws),
    Eval.bind_of_ok (component row toY 2 m.throws)]
  rfl

/-- Reading a stroke with a point and a direction comes down to where it ends. -/
theorem act_drawsLine (draws : DrawsLine dice s m h n) (point : 1 ≤ n.val) (direction : h ≠ .none) :
    ∃ throws, s.act (m.scene dice) m.throws =
      ((m.scene dice).placeAt h (n.val - 1) s.loc >>= fun place =>
        pure (Act.draw (.stroke h n place.1 place.2))) throws := by
  obtain ⟨dx, dy, distance, throws₁, throws₂, kind, first, second⟩ := draws
  have checked : Eval.checkDistance .line h n s.loc = pure () := by
    rw [Eval.checkDistance, if_neg (by omega), if_neg fun refused => direction refused.1]
  refine ⟨throws₂, ?_⟩
  rw [Stmt.act, kind]
  dsimp only
  rw [Scene.directed, Eval.bind_of_ok first, Scene.line, bind_assoc, Eval.bind_of_ok second,
    checked, if_pos (show 0 < n.val by omega)]
  simp only [pure_bind, bind_assoc]

/-- A stroke whose end is in range is drawn up to there. -/
theorem act_of_inRange (draws : DrawsLine dice s m h n) (point : 1 ≤ n.val) (direction : h ≠ .none)
    (stop : (h.stepsFrom m.pen.point (n.val - 1)).InRange) :
    ∃ x y throws, s.act (m.scene dice) m.throws = .ok (.draw (.stroke h n x y), throws) ∧
      h.stepsFrom m.pen.point (n.val - 1) = ⟨x.val, y.val⟩ := by
  obtain ⟨throws, reads⟩ := act_drawsLine draws point direction
  let x : Integer := ⟨_, stop.1.1, stop.1.2⟩
  let y : Integer := ⟨_, stop.2.1, stop.2.2⟩
  have placed : (m.scene dice).placeAt h (n.val - 1) s.loc = pure (x, y) := by
    have column : Integer.ofInt? (h.stepsFrom m.pen.point (n.val - 1)).x = some x :=
      Integer.ofInt?_eq_some_iff.2 rfl
    have row : Integer.ofInt? (h.stepsFrom m.pen.point (n.val - 1)).y = some y :=
      Integer.ofInt?_eq_some_iff.2 rfl
    rw [Scene.placeAt]
    dsimp only [scene]
    rw [column, row]
  refine ⟨x, y, throws, ?_, rfl⟩
  rw [reads, placed]
  rfl

/-- A stroke that is read has its end in range. -/
theorem inRange_of_act {act : Act} {throws : Nat} (draws : DrawsLine dice s m h n)
    (point : 1 ≤ n.val) (direction : h ≠ .none)
    (read : s.act (m.scene dice) m.throws = .ok (act, throws)) :
    (h.stepsFrom m.pen.point (n.val - 1)).InRange := by
  obtain ⟨throws', reads⟩ := act_drawsLine draws point direction
  rw [reads] at read
  cases placed : (m.scene dice).placeAt h (n.val - 1) s.loc throws' with
  | error f =>
      rw [Eval.bind_of_error placed] at read
      cases read
  | ok r =>
      have place := (Scene.placeAt_ensures (Q := fun _ => True) (fun _ _ => True.intro) h
        (n.val - 1)).of_eq_ok placed
      rw [show m.pen = (m.scene dice).pen from rfl, place]
      exact ⟨r.1.1.inRange, r.1.2.inRange⟩

/-- What is painted for a stroke is all of it exactly if the brush stays in range at the points near
the canvas. -/
theorem whole_stroke {c : Canvas} {pen : Pen} {x y : Integer} :
    (((Figure.stroke h n x y).drawing c pen).coat c).whole = true ↔
      ∀ p, Stroke.Visits ⟨pen.point, h, n.val⟩ p → c.Borders (pen.brush.size / 2) p →
        p.InRange ∧ Brush.Fits pen.brush.size p := by
  rw [Figure.drawing, Drawing.whole_coat_inRange]
  simp only [Stroke.mem_visible, and_imp]

/-- A stroke that gets through stays in range and is drawn. -/
theorem stroked_of_exec (draws : DrawsLine dice s m h n) (point : 1 ≤ n.val)
    (direction : h ≠ .none) (done : exec dice s m = .ok () m') :
    Admits h n m ∧ Stroked h n m m' := by
  obtain ⟨act, throws₀, read₀, -⟩ := act_of_exec done
  have stop := inRange_of_act draws point direction read₀
  obtain ⟨x, y, throws, read, place⟩ := act_of_inRange draws point direction stop
  rw [exec_of_act read, perform, draw_eq] at done
  obtain ⟨whole, m₁, painted, rfl⟩ := settled_eq_ok done
  obtain ⟨centers, points, coat⟩ := Drawing.coat_of_whole whole
  obtain ⟨rfl, -⟩ := Point.inRange?_eq_some.1 points
  rw [coat] at painted
  obtain ⟨reporter, rfl⟩ := paintPixels_eq_ok painted
  exact ⟨⟨stop, whole_stroke.1 whole⟩, rfl, place.symm, rfl⟩

/-- A stroke that stays in range is drawn if nobody stops it. -/
theorem exists_exec_of_admits (draws : DrawsLine dice s m h n) (point : 1 ≤ n.val)
    (direction : h ≠ .none) (admits : Admits h n m) (unhindered : Unhindered (exec dice s m)) :
    ∃ m', exec dice s m = .ok () m' := by
  obtain ⟨x, y, throws, read, -⟩ := act_of_inRange draws point direction admits.stop
  have whole := whole_stroke (x := x) (y := y).2 admits.room
  rw [exec_of_act read, perform, draw_eq] at unhindered ⊢
  obtain ⟨canvas, reporter, through | ⟨halt, outer, stopped⟩⟩ := paintPixels_cases m.pen.color
    (((Figure.stroke h n x y).drawing m.canvas m.pen).coat m.canvas).pixels { m with throws }
  · exact ⟨_, by rw [through, settled, if_pos whole]⟩
  · rw [stopped] at unhindered
    exact absurd (unhindered halt _ rfl) (disturbed_of_outer halt outer)

/-! ### Two strokes -/

namespace Stroked

variable {k t : Integer} {m₁ m₂ : Machine}

/-- The sides of the canvas stay. -/
theorem borders_iff (stroked : Stroked h n m m₁) {margin : Nat} {p : Point} :
    m₁.canvas.Borders margin p ↔ m.canvas.Borders margin p := by
  rw [Canvas.Borders, Canvas.Borders, stroked.canvas, Canvas.width_lay, Canvas.height_lay]

/-- The brush stays. -/
theorem brush_eq (stroked : Stroked h n m m₁) : m₁.pen.brush = m.pen.brush := by
  rw [stroked.pen]
  rfl

/-- What a stroke leaves of the canvas and the pen is determined. -/
theorem unique (one : Stroked h n m m₁) (other : Stroked h n m m₂) :
    m₁.canvas = m₂.canvas ∧ m₁.pen = m₂.pen := by
  have place : m₁.pen.point = m₂.pen.point := one.place.trans other.place.symm
  obtain ⟨column, row⟩ := Point.mk.injEq .. ▸ place
  refine ⟨one.canvas.trans other.canvas.symm, ?_⟩
  rw [one.pen, other.pen, Integer.val_injective column, Integer.val_injective row]

/-- **Two strokes in one direction** leave what one stroke over the points of both leaves, if the
color is opaque. -/
theorem append (one : Stroked h n m m₁) (other : Stroked h k m₁ m₂) (full : m.pen.color.a = 255)
    (first : 1 ≤ n.val) (second : 1 ≤ k.val) (total : t.val = n.val + k.val - 1) :
    Stroked h t m m₂ := by
  have color : m₁.pen.color = m.pen.color := by
    rw [one.pen]
    rfl
  refine ⟨?_, ?_, ?_⟩
  · rw [other.canvas, one.place, color, one.brush_eq, one.canvas]
    refine Canvas.lay_lay_of_opaque full fun q => ?_
    rw [Canvas.reached_visible, Canvas.reached_visible, Canvas.reached_visible_lay, ← and_or_left,
      total]
    simp only [Stroke.visits_append first second, or_and_right, exists_or]
  · rw [other.place, one.place, Heading.stepsFrom_stepsFrom, total]
    congr 1
    omega
  · rw [other.pen, one.pen]
    rfl

/-- **Two strokes in one direction stay in range** together with the stroke over the points of both:
the pen only moves away, so the place between them is in range if the end is, and the points near
the canvas are the same ones. -/
theorem admits_iff (one : Stroked h n m m₁) (first : 1 ≤ n.val) (second : 1 ≤ k.val)
    (total : t.val = n.val + k.val - 1) : Admits h t m ↔ Admits h n m ∧ Admits h k m₁ := by
  have stop : h.stepsFrom m₁.pen.point (k.val - 1) = h.stepsFrom m.pen.point (t.val - 1) := by
    rw [one.place, Heading.stepsFrom_stepsFrom, total]
    congr 1
    omega
  have visits (p : Point) : Stroke.Visits ⟨m.pen.point, h, t.val⟩ p ↔
      Stroke.Visits ⟨m.pen.point, h, n.val⟩ p ∨ Stroke.Visits ⟨m₁.pen.point, h, k.val⟩ p := by
    rw [total, one.place]
    exact Stroke.visits_append first second
  constructor
  · rintro ⟨inRange, room⟩
    refine ⟨⟨?_, fun p early => ?_⟩, ⟨stop ▸ inRange, fun p late => ?_⟩⟩
    · exact Heading.stepsFrom_inRange m.pen.point_inRange inRange (by omega) (by omega)
    · exact room p ((visits p).2 (Or.inl early))
    · rw [one.brush_eq, one.borders_iff]
      exact room p ((visits p).2 (Or.inr late))
  · rintro ⟨⟨-, early⟩, ⟨inRange, late⟩⟩
    refine ⟨stop ▸ inRange, fun p visited near => ?_⟩
    rcases (visits p).1 visited with here | there
    · exact early p here near
    · rw [← one.brush_eq] at near ⊢
      exact late p there (one.borders_iff.2 near)

end Stroked

/-- Two statements, one after the other. What happens in between changes the machine, as going on to
the next line does. -/
def execBoth (dice : Nat → Nat) (s₁ : Stmt) (between : Machine → Machine) (s₂ : Stmt) :
    Run Unit := do
  exec dice s₁
  modify between
  exec dice s₂

section Composition

variable {s₁ s₂ : Stmt} {k t : Integer} {between : Machine → Machine} {m₁ : Machine}

/-- Behind the first statement comes the second one. -/
theorem execBoth_of_ok (done : exec dice s₁ m = .ok () m₁) :
    execBoth dice s₁ between s₂ m = exec dice s₂ (between m₁) := by
  rw [execBoth, bind_of_ok done]
  rfl

/-- Two statements are executed if the first one is and then the second one is. -/
theorem execBoth_eq_ok (done : execBoth dice s₁ between s₂ m = .ok () m') :
    ∃ m₁, exec dice s₁ m = .ok () m₁ ∧ exec dice s₂ (between m₁) = .ok () m' := by
  obtain ⟨⟨⟩, m₁, first, second⟩ := bind_eq_ok_iff.1 done
  exact ⟨m₁, first, second⟩

/-- If nobody stops two statements then nobody stops the first of them. -/
theorem unhindered_of_both (both : Unhindered (execBoth dice s₁ between s₂ m)) :
    Unhindered (exec dice s₁ m) :=
  fun halt m' stopped => both halt m' (bind_of_error stopped)

/-- **Strokes in one direction compose.** Whatever the machine is, with an opaque color, and in
every direction: a stroke and then another one from its last point on get through if and only if one
stroke over the points of both does, unless they are cancelled or pause for ever. Then the pictures
are the same, and so are the pens. -/
theorem collinear_strokes_compose (full : m.pen.color.a = 255) (direction : h ≠ .none)
    (first : 1 ≤ n.val) (second : 1 ≤ k.val) (total : t.val = n.val + k.val - 1)
    (keeps : ∀ m, (between m).canvas = m.canvas ∧ (between m).pen = m.pen)
    (draws₁ : DrawsLine dice s₁ m h n)
    (draws₂ : ∀ m₁, exec dice s₁ m = .ok () m₁ → DrawsLine dice s₂ (between m₁) h k)
    (draws : DrawsLine dice s m h t)
    (both : Unhindered (execBoth dice s₁ between s₂ m)) (once : Unhindered (exec dice s m)) :
    ((∃ m', execBoth dice s₁ between s₂ m = .ok () m') ↔ ∃ m', exec dice s m = .ok () m') ∧
      ∀ m₂ m', execBoth dice s₁ between s₂ m = .ok () m₂ → exec dice s m = .ok () m' →
        m₂.canvas = m'.canvas ∧ m₂.pen = m'.pen := by
  have long : 1 ≤ t.val := by omega
  -- what the first stroke leaves is in front of the second one
  have between_eq {m₁ : Machine} (one : Stroked h n m m₁) : Stroked h n m (between m₁) := by
    obtain ⟨canvas, pen⟩ := keeps m₁
    obtain ⟨drawn, place, others⟩ := one
    exact ⟨canvas.trans drawn, pen ▸ place, pen ▸ others⟩
  have composed {m₂ : Machine} (through : execBoth dice s₁ between s₂ m = .ok () m₂) :
      Admits h t m ∧ Stroked h t m m₂ := by
    obtain ⟨m₁, one, other⟩ := execBoth_eq_ok through
    obtain ⟨admits₁, stroked₁⟩ := stroked_of_exec draws₁ first direction one
    obtain ⟨admits₂, stroked₂⟩ := stroked_of_exec (draws₂ m₁ one) second direction other
    have stroked₁ := between_eq stroked₁
    exact ⟨(stroked₁.admits_iff first second total).2 ⟨admits₁, admits₂⟩,
      stroked₁.append stroked₂ full first second total⟩
  refine ⟨⟨?_, ?_⟩, ?_⟩
  · rintro ⟨m₂, through⟩
    exact exists_exec_of_admits draws long direction (composed through).1 once
  · rintro ⟨m', done⟩
    have admits := (stroked_of_exec draws long direction done).1
    have halfway : Admits h n m := by
      refine ⟨?_, fun p visited => admits.room p ?_⟩
      · exact Heading.stepsFrom_inRange m.pen.point_inRange admits.stop (by omega) (by omega)
      · rw [total]
        exact (Stroke.visits_append first second).2 (Or.inl visited)
    obtain ⟨m₁, one⟩ :=
      exists_exec_of_admits draws₁ first direction halfway (unhindered_of_both both)
    have stroked₁ := between_eq (stroked_of_exec draws₁ first direction one).2
    have rest := ((stroked₁.admits_iff first second total).1 admits).2
    rw [execBoth_of_ok one] at both ⊢
    exact exists_exec_of_admits (draws₂ m₁ one) second direction rest both
  · intro m₂ m' through done
    exact (composed through).2.unique (stroked_of_exec draws long direction done).2

end Composition

/-- The statement `DrawLine(1, -1, n)`. -/
def upwards (n : Nat) : Stmt :=
  ⟨⟨1, 1⟩, .drawLine (.lit ⟨1, 10⟩ (.int (.saturate 1)))
    (.unary ⟨1, 13⟩ .neg (.lit ⟨1, 14⟩ (.int (.saturate 1)))) (.lit ⟨1, 17⟩ (.int (.saturate n)))⟩

/-- A machine with a pen below its canvas. -/
def fromBelow : Machine where
  canvas := .blank 3 2
  pen := { x := .saturate (-1), y := .saturate 3, color := .rgb 255 0 0 }
  reporter := { pace := {} }

/-- Between two statements the first one is reported and the second one is fetched. -/
def goOn (m : Machine) : Machine :=
  (m.stepped (upwards 2)).fetched

/-- Two strokes and one stroke cross a canvas from below and leave it above. -/
theorem strokes_cross_the_canvas :
    ∃ m₂ m', execBoth (fun _ => 0) (upwards 2) goOn (upwards 4) fromBelow = .ok () m₂ ∧
      exec (fun _ => 0) (upwards 5) fromBelow = .ok () m' ∧
      m₂.canvas = m'.canvas ∧ m₂.pen = m'.pen ∧ m₂.pen.point = ⟨3, -1⟩ := by
  have draws (n : Nat) (m : Machine) :
      DrawsLine (fun _ => 0) (upwards n) m ⟨.pos, .neg⟩ (.saturate n) :=
    drawsLine_of_constants rfl rfl rfl rfl rfl rfl m
  have free : fromBelow.reporter.Free := ⟨rfl, rfl⟩
  have once := exec_of_passing (fun _ => 0) (upwards 5) free (by decide)
  have both : Unhindered (execBoth (fun _ => 0) (upwards 2) goOn (upwards 4) fromBelow) := by
    intro halt m' stopped
    cases one : exec (fun _ => 0) (upwards 2) fromBelow with
    | ok _ m₁ =>
        obtain ⟨free₁, pace₁⟩ := exec_staysFree free one
        obtain ⟨free₂, pace₂, -⟩ := stepReport_passes free₁ (upwards 2)
        rw [execBoth_of_ok one] at stopped
        exact exec_of_passing (m := goOn m₁) (fun _ => 0) (upwards 4) free₂
          (show (m₁.stepReport (upwards 2)).reporter.pace.Passing by
            rw [pace₂, pace₁]; decide) halt m' stopped
    | error halt₁ m₁ =>
        rw [execBoth, bind_of_error one] at stopped
        cases stopped
        exact exec_of_passing (fun _ => 0) (upwards 2) free (by decide) halt m' one
  have keeps (m : Machine) : (goOn m).canvas = m.canvas ∧ (goOn m).pen = m.pen := ⟨rfl, rfl⟩
  obtain ⟨iff, same⟩ := collinear_strokes_compose rfl (by decide) (by decide) (by decide)
    (by decide) keeps (draws 2 fromBelow) (fun _ _ => draws 4 _) (draws 5 fromBelow) both once
  have admits : Admits ⟨.pos, .neg⟩ (.saturate 5) fromBelow :=
    ⟨by decide, fun p _ near => near.inRange rfl (by decide)⟩
  obtain ⟨m', done⟩ := exists_exec_of_admits (draws 5 fromBelow) (by decide) (by decide) admits once
  obtain ⟨m₂, through⟩ := iff.2 ⟨m', done⟩
  obtain ⟨canvas, pen⟩ := same m₂ m' through done
  refine ⟨m₂, m', through, done, canvas, pen, ?_⟩
  rw [pen, (stroked_of_exec (draws 5 fromBelow) (by decide) (by decide) done).2.place]
  rfl

end Machine

end PenScript
