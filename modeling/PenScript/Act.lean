import PenScript.Eval

/-!
# What a statement asks for

Executing a statement has two halves. First its arguments are read: they are evaluated in the scene
and checked, and nothing is changed. What comes out is an `Act`: the pen is settled, a variable is
assigned, a figure is drawn, a jump is made, or nothing is done. All failures but one are found
here; only where a jump leads is looked up when the act is performed.

A figure is said without the canvas. Where the brush is put down to draw it on a canvas, and with
which pen behind, is its `Drawing`. The points of a drawing are numbers that nobody has checked
before: if one of them is out of the range of integers, there are no points at all.

## Main definitions

* `Act`, `Figure` — what a statement asks for;
* `Scene.integer`, `Scene.heading`, `Scene.placeAt` — the readers of arguments;
* `Scene.line`, `Scene.circle`, `Scene.rectangle` — the figures of statements that draw;
* `Stmt.act` — reads a statement;
* `Figure.drawing` — a figure drawn with a pen on a canvas;
* `Drawing.coat` — the pixels that are painted for a drawing.
-/

namespace PenScript

/-- What is drawn. The place is where the pen is left: at the last point of a stroke that starts at
the pen, at the center of a circle, at the top left corner of a rectangle. A region is that around
the pen, which stays. -/
inductive Figure where
  | stroke (heading : Heading) (steps x y : Integer)
  | circle (x y radius : Integer)
  | rectangle (x y width height : Integer)
  | region
deriving DecidableEq, Repr

/-- What a statement asks for, once its arguments are read. -/
inductive Act where
  | settle (pen : Pen)
  | assign (name : String) (v : Value)
  | draw (figure : Figure)
  | jump (label : String)
  | rest
deriving DecidableEq, Repr

/-! ### Reading arguments -/

/-- A distance is not negative, and a distance that is not zero needs a direction. -/
def Eval.checkDistance (shape : DistantShape) (h : Heading) (d : Integer) (loc : Location) :
    Eval Unit := do
  if d.val < 0 then
    Eval.fail loc (.negativeDistance shape d)
  if h = .none ∧ d.val ≠ 0 then
    Eval.fail loc .noDirection

namespace Scene

variable (scene : Scene)

/-- The integer reading of an expression in some role. -/
def integer (role : Role) (e : Expr) : Eval Integer := do
  Eval.integer e.loc role (← e.eval scene)

/-- The boolean reading of an expression in some role. -/
def truth (role : Role) (e : Expr) : Eval Bool := do
  Eval.truth e.loc role (← e.eval scene)

/-- The color that an expression in some role names. -/
def color (role : Role) (e : Expr) : Eval Color := do
  Eval.color e.loc (← Eval.string e.loc role (← e.eval scene))

/-- One component of a direction, the argument with number `i` of a command. -/
def sign (c : Command) (i : Nat) (e : Expr) : Eval Sign := do
  let n ← scene.integer (.argument i c.name) e
  match Sign.ofInt? n.val with
  | some s => return s
  | none => Eval.fail e.loc (.badDirection n)

/-- The direction given by the first two arguments of a command. -/
def heading (c : Command) (dx dy : Expr) : Eval Heading := do
  let sx ← scene.sign c 1 dx
  let sy ← scene.sign c 2 dy
  return ⟨sx, sy⟩

/-- The place `n` steps away from the pen, for a statement at `loc`. -/
def placeAt (h : Heading) (n : Int) (loc : Location) : Eval (Integer × Integer) :=
  let p := h.stepsFrom scene.pen.point n
  match Integer.ofInt? p.x, Integer.ofInt? p.y with
  | some x, some y => pure (x, y)
  | _, _ => Eval.fail loc .penOverflow

/-- The pen at a place of the canvas. -/
def place (c : Command) (x y : Expr) : Eval Act := do
  let px ← scene.integer (.argument 1 c.name) x
  let py ← scene.integer (.argument 2 c.name) y
  if scene.canvas.Contains ⟨px.val, py.val⟩ then
    return .settle (scene.pen.moveTo px py)
  else
    Eval.fail x.loc (.outside px py scene.canvas.width scene.canvas.height)

/-- A stroke from the pen on, for a statement at `loc`. The pen is left at its last point. -/
def line (h : Heading) (loc : Location) (distance : Expr) : Eval Figure := do
  let n ← scene.integer (.argument 3 Command.drawLine.name) distance
  Eval.checkDistance .line h n loc
  let (x, y) ← scene.placeAt h (if 0 < n.val then n.val - 1 else 0) loc
  return .stroke h n x y

/-- A circle whose center is one radius away from the pen. The pen is left there. -/
def circle (h : Heading) (loc : Location) (radius : Expr) : Eval Figure := do
  let r ← scene.integer (.argument 3 Command.drawCircle.name) radius
  if r.val ≤ 0 ∨ maxRadius < r.val then
    Eval.fail loc (.badRadius r)
  let (x, y) ← scene.placeAt h r.val loc
  return .circle x y r

/-- A rectangle whose top left corner is some distance away from the pen. The pen is left there. -/
def rectangle (h : Heading) (loc : Location) (distance width height : Expr) : Eval Figure := do
  let d ← scene.integer (.argument 3 Command.drawRectangle.name) distance
  let w ← scene.integer (.argument 4 Command.drawRectangle.name) width
  let t ← scene.integer (.argument 5 Command.drawRectangle.name) height
  Eval.checkDistance .rectangle h d loc
  if w.val ≤ 0 ∨ t.val ≤ 0 then
    Eval.fail loc (.badExtent w t)
  let (x, y) ← scene.placeAt h d.val loc
  return .rectangle x y w t

/-- A figure in the direction that is given by the first two arguments of a command. -/
def directed (c : Command) (dx dy : Expr) (figure : Heading → Eval Figure) : Eval Act := do
  let h ← scene.heading c dx dy
  return .draw (← figure h)

end Scene

/-- Reads a statement. -/
def Stmt.act (s : Stmt) (scene : Scene) : Eval Act :=
  match s.kind with
  | .spawn x y => scene.place .spawn x y
  | .respawn x y => scene.place .respawn x y
  | .color e => do
    let color ← scene.color (.argument 1 Command.color.name) e
    return .settle { scene.pen with color }
  | .size e => do
    let n ← scene.integer (.argument 1 Command.size.name) e
    return .settle (scene.pen.setSize n)
  | .drawLine dx dy d => scene.directed .drawLine dx dy fun h => scene.line h s.loc d
  | .drawCircle dx dy r => scene.directed .drawCircle dx dy fun h => scene.circle h s.loc r
  | .drawRectangle dx dy d w t =>
    scene.directed .drawRectangle dx dy fun h => scene.rectangle h s.loc d w t
  | .fill => return .draw .region
  | .filling e => do
    let filling ← scene.truth (.argument 1 Command.filling.name) e
    return .settle { scene.pen with filling }
  | .assign x e => do
    let v ← e.eval scene
    return .assign x v
  | .label _ => return .rest
  | .goTo label e => do
    let holds ← scene.truth (.condition label) e
    return if holds then .jump label else .rest
  | .expr e => do
    let _ ← e.eval scene
    return .rest

/-! ### Drawing figures -/

/-- A figure on a canvas: the points at which a brush of some size is put down, in order, and the
pen behind it. There are no points if one of their coordinates is out of range. -/
structure Drawing where
  centers? : Option (List Point)
  size : Nat
  pen : Pen

/-- A figure drawn with a pen on a canvas. What is filled is drawn pixel by pixel. -/
def Figure.drawing (c : Canvas) (pen : Pen) : Figure → Drawing
  | stroke h n x y =>
    let size := pen.brush.size
    ⟨Point.inRange? (Stroke.visible ⟨pen.point, h, n.val⟩ c size), size, pen.moveTo x y⟩
  | circle x y r =>
    let center : Point := ⟨x.val, y.val⟩
    if pen.filling then
      ⟨if center.HasRoom r.val then some (Circle.disc c center r.val) else none, 1, pen.moveTo x y⟩
    else ⟨Point.inRange? (Circle.outline center r.val), pen.brush.size, pen.moveTo x y⟩
  | rectangle x y w t =>
    let corner : Point := ⟨x.val, y.val⟩
    if pen.filling then
      ⟨some (Rectangle.inside c corner w.val t.val), 1, pen.moveTo x y⟩
    else
      let size := pen.brush.size
      ⟨Point.inRange? (Rectangle.outline c corner w.val t.val size), size, pen.moveTo x y⟩
  | region => ⟨some (Flood.region c pen.point pen.color), 1, pen⟩

/-- What is painted for a drawing: nothing if its points are out of range. -/
def Drawing.coat (d : Drawing) (c : Canvas) : Coat :=
  match d.centers? with
  | some centers => c.coat centers d.size
  | none => ⟨[], false⟩

end PenScript
