import PenScript.Act
import PenScript.Proofs.Typing

/-!
# What reading a statement ensures

Reading a statement evaluates its arguments, takes each of them as an integer, a boolean or a color,
and checks the numbers. What comes out of it is said here once, for any set of failures that are
allowed: if the arguments are evaluated with these failures only, and the errors that statements
raise themselves are among them, then the statement is read with these failures only, and the act
that it asks for is one of its own.

Everything else that is known about reading is a case of this: with all failures allowed it says
what a statement asks for; with the failures of expressions and statements it says that reading has
no part in the flow of a run; with those that types allow it says that a checked statement finds
values of the right types.

## Main definitions

* `Scene.Gives` — an argument gives a value of some type, or fails as it is allowed to;
* `Figure.Fits` — what a statement has checked about its figure;
* `Act.Suits` — the acts that a statement can ask for.

## Main results

* `Stmt.act_ensures`: what reading a statement ensures;
* `Stmt.act_suits`: whatever the arguments, a statement asks for an act of its own;
* `Stmt.act_congr`: a statement sees of its scene what its arguments see of it, the pen, and whether
  a place is on the canvas.
-/

namespace PenScript

/-! ### Computations -/

namespace Eval

variable {α β : Type} {P : α → Prop} {Q : Failure → Prop}

/-- Less may be asked for. -/
theorem Ensures.imp {P' : α → Prop} {x : Eval α} (h : Ensures P Q x) (weaker : ∀ a, P a → P' a) :
    Ensures P' Q x := by
  intro throws
  have now := h throws
  cases result : x throws with
  | error f =>
      rw [result] at now
      exact now
  | ok r =>
      rw [result] at now
      exact weaker r.1 now

/-- More failures may be allowed. -/
theorem Ensures.allow {Q' : Failure → Prop} {x : Eval α} (h : Ensures P Q x)
    (more : ∀ f, Q f → Q' f) : Ensures P Q' x := by
  intro throws
  have now := h throws
  cases result : x throws with
  | error f =>
      rw [result] at now
      exact more f now
  | ok r =>
      rw [result] at now
      exact now

/-- If nothing is asked for and every failure is allowed, there is nothing to ensure. -/
theorem Ensures.trivial (x : Eval α) : Ensures (fun _ => True) (fun _ => True) x := by
  intro throws
  cases x throws <;> exact True.intro

/-- A check in front of a computation fails as it says, or is at hand for the computation. -/
theorem Ensures.guard {c : Prop} [Decidable c] {loc : Location} {e : RuntimeError}
    {f : Unit → Eval α} (refused : c → Q ⟨loc, e⟩) (next : ¬c → Ensures P Q (f ())) :
    Ensures P Q (if c then Eval.fail loc e >>= f else f ()) := by
  split
  · next h => exact fun _ => refused h
  · next h => exact next h

/-- Behind a computation that succeeds comes the next one. -/
theorem bind_of_ok {x : Eval α} {f : α → Eval β} {throws : Nat} {r : α × Nat}
    (h : x throws = .ok r) : (x >>= f) throws = f r.1 r.2 := by
  change Except.bind (x throws) _ = _
  rw [h]
  rfl

/-- Behind a computation that fails comes nothing. -/
theorem bind_of_error {x : Eval α} {f : α → Eval β} {throws : Nat} {g : Failure}
    (h : x throws = .error g) : (x >>= f) throws = .error g := by
  change Except.bind (x throws) _ = _
  rw [h]
  rfl

/-- What has been computed has what is ensured of it. -/
theorem Ensures.of_eq_ok {x : Eval α} {a : α} {throws throws' : Nat} (h : Ensures P Q x)
    (done : x throws = .ok (a, throws')) : P a := by
  have now := h throws
  rw [done] at now
  exact now

/-- What has failed is a failure that is allowed. -/
theorem Ensures.of_eq_error {x : Eval α} {f : Failure} {throws : Nat} (h : Ensures P Q x)
    (failed : x throws = .error f) : Q f := by
  have now := h throws
  rw [failed] at now
  exact now

end Eval

open Eval

/-! ### Errors of statements -/

namespace RuntimeError

/-- The errors about the numbers of a figure. -/
def isShape : RuntimeError → Bool
  | negativeDistance .. | noDirection | badRadius _ | badExtent .. | penOverflow => true
  | _ => false

/-- The errors that statements raise themselves when they are read. -/
def isOwn : RuntimeError → Bool
  | outside .. | badDirection _ | badColor _ => true
  | e => e.isShape

/-- The error of a value that is not of the type that a role asks for. -/
def unexpected (role : Role) : Ty → RuntimeError
  | .intOrBool => expectedInteger role
  | .str => expectedString role

/-- What is wrong with a figure is an error of the statement. -/
theorem isOwn_of_isShape {e : RuntimeError} (h : e.isShape = true) : e.isOwn = true := by
  cases e <;> first | rfl | cases h

end RuntimeError

/-! ### Arguments -/

namespace Scene

variable {Q : Failure → Prop} {scene : Scene} {e : Expr}

/-- The expression gives a value of type `t`, or fails with `Q`; if a wrong type is among the
failures of `Q`, it may give any value. -/
def Gives (scene : Scene) (Q : Failure → Prop) (t : Ty) (e : Expr) : Prop :=
  Ensures (fun v => v.type = t ∨ ∀ role, Q ⟨e.loc, .unexpected role t⟩) Q (e.eval scene)

/-- An argument that gives an integer is read as one. -/
theorem integer_ensures (role : Role) (gives : scene.Gives Q .intOrBool e) :
    Ensures (fun _ => True) Q (scene.integer role e) := by
  refine Ensures.bind gives fun v typed => ?_
  rcases typed with typed | allowed
  · exact Eval.integer_ensures _ _ typed
  · rw [Eval.integer]
    split
    · exact Ensures.pure trivial
    · exact Ensures.fail (allowed role)

/-- An argument that gives a boolean is read as one. -/
theorem truth_ensures (role : Role) (gives : scene.Gives Q .intOrBool e) :
    Ensures (fun _ => True) Q (scene.truth role e) := by
  refine Ensures.bind gives fun v typed => ?_
  rcases typed with typed | allowed
  · exact Eval.truth_ensures _ _ typed
  · rw [Eval.truth]
    split
    · exact Ensures.pure trivial
    · exact Ensures.fail (allowed role)

/-- An argument that gives a string is read as a color. -/
theorem color_ensures (role : Role) (gives : scene.Gives Q .str e)
    (unnamed : ∀ s, Q ⟨e.loc, .badColor s⟩) :
    Ensures (fun _ => True) Q (scene.color role e) := by
  refine Ensures.bind gives fun v typed => ?_
  refine Ensures.bind (P := fun _ => True) ?_ fun s _ => ?_
  · rcases typed with typed | allowed
    · exact Eval.string_ensures _ _ typed
    · rw [Eval.string]
      split
      · exact Ensures.pure trivial
      · exact Ensures.fail (allowed role)
  · rw [Eval.color]
    split
    · exact Ensures.pure trivial
    · exact Ensures.fail (unnamed s)

/-- A component of a direction is refused, or it is a sign. -/
theorem sign_ensures (c : Command) (i : Nat) (gives : scene.Gives Q .intOrBool e)
    (refused : ∀ n, Q ⟨e.loc, .badDirection n⟩) :
    Ensures (fun _ => True) Q (scene.sign c i e) := by
  refine Ensures.bind (integer_ensures _ gives) fun n _ => ?_
  split
  · exact Ensures.pure trivial
  · exact Ensures.fail (refused n)

/-- A direction is refused because of one of its components. -/
theorem heading_ensures (c : Command) {dx dy : Expr}
    (gives : ∀ e ∈ [dx, dy], scene.Gives Q .intOrBool e)
    (refused : ∀ e ∈ [dx, dy], ∀ n, Q ⟨e.loc, .badDirection n⟩) :
    Ensures (fun _ => True) Q (scene.heading c dx dy) := by
  simp only [List.forall_mem_cons] at gives refused
  refine Ensures.bind (sign_ensures c 1 gives.1 refused.1) fun _ _ => ?_
  refine Ensures.bind (sign_ensures c 2 gives.2.1 refused.2.1) fun _ _ => ?_
  exact Ensures.pure trivial

end Scene

/-! ### Figures -/

/-- What a statement has checked about its figure: a stroke has no negative length, and none without
a direction; a circle has a radius that is allowed; a rectangle has points. -/
def Figure.Fits (pen : Pen) : Figure → Prop
  | stroke h n x y =>
    0 ≤ n.val ∧ (h = .none → n.val = 0) ∧
      h.stepsFrom pen.point (if 0 < n.val then n.val - 1 else 0) = ⟨x.val, y.val⟩
  | circle x y r =>
    0 < r.val ∧ r.val ≤ maxRadius ∧ ∃ h : Heading, h.stepsFrom pen.point r.val = ⟨x.val, y.val⟩
  | rectangle _ _ w t => 0 < w.val ∧ 0 < t.val
  | region => True

namespace Scene

variable {Q : Failure → Prop} {scene : Scene} {loc : Location}
  (shape : ∀ e : RuntimeError, e.isShape = true → Q ⟨loc, e⟩)
include shape

/-- A place that is reached is an exact number of steps away from the pen. -/
theorem placeAt_ensures (h : Heading) (n : Int) :
    Ensures (fun (x, y) => h.stepsFrom scene.pen.point n = ⟨x.val, y.val⟩) Q
      (scene.placeAt h n loc) := by
  rw [placeAt]
  cases column : Integer.ofInt? (h.stepsFrom scene.pen.point n).x with
  | none => exact Ensures.fail (shape _ rfl)
  | some x =>
      cases row : Integer.ofInt? (h.stepsFrom scene.pen.point n).y with
      | none => exact Ensures.fail (shape _ rfl)
      | some y =>
          refine Ensures.pure ?_
          dsimp only
          rw [Integer.ofInt?_eq_some_iff.1 column, Integer.ofInt?_eq_some_iff.1 row]

/-- A distance that passes is not negative, and zero if there is no direction. -/
theorem checkDistance_ensures (form : DistantShape) (h : Heading) (d : Integer) :
    Ensures (fun _ => 0 ≤ d.val ∧ (h = .none → d.val = 0)) Q (Eval.checkDistance form h d loc) := by
  rw [Eval.checkDistance]
  refine Ensures.guard (fun _ => shape _ rfl) fun positive => ?_
  split
  · exact Ensures.fail (shape _ rfl)
  · next refused =>
    refine Ensures.pure ⟨by omega, fun still => ?_⟩
    by_cases zero : d.val = 0
    · exact zero
    · exact absurd ⟨still, zero⟩ refused

/-- A stroke that is read fits the pen. -/
theorem line_ensures (h : Heading) {d : Expr} (gives : scene.Gives Q .intOrBool d) :
    Ensures (fun f => f.Fits scene.pen ∧ f ≠ .region) Q (scene.line h loc d) := by
  refine Ensures.bind (integer_ensures _ gives) fun n _ => ?_
  refine Ensures.bind (checkDistance_ensures shape _ h n) fun _ checked => ?_
  refine Ensures.bind (placeAt_ensures shape h _) fun (x, y) place => ?_
  exact Ensures.pure ⟨⟨checked.1, checked.2, place⟩, nofun⟩

/-- A circle that is read fits the pen. -/
theorem circle_ensures (h : Heading) {r : Expr} (gives : scene.Gives Q .intOrBool r) :
    Ensures (fun f => f.Fits scene.pen ∧ f ≠ .region) Q (scene.circle h loc r) := by
  refine Ensures.bind (integer_ensures _ gives) fun r _ => ?_
  refine Ensures.guard (fun _ => shape _ rfl) fun allowed => ?_
  refine Ensures.bind (placeAt_ensures shape h _) fun (x, y) place => ?_
  exact Ensures.pure ⟨⟨by omega, by omega, h, place⟩, nofun⟩

/-- A rectangle that is read has points. -/
theorem rectangle_ensures (h : Heading) {d w t : Expr}
    (gives : ∀ e ∈ [d, w, t], scene.Gives Q .intOrBool e) :
    Ensures (fun f => f.Fits scene.pen ∧ f ≠ .region) Q (scene.rectangle h loc d w t) := by
  simp only [List.forall_mem_cons] at gives
  refine Ensures.bind (integer_ensures _ gives.1) fun d _ => ?_
  refine Ensures.bind (integer_ensures _ gives.2.1) fun w _ => ?_
  refine Ensures.bind (integer_ensures _ gives.2.2.1) fun t _ => ?_
  refine Ensures.bind (checkDistance_ensures shape _ h d) fun _ _ => ?_
  refine Ensures.guard (fun _ => shape _ rfl) fun allowed => ?_
  refine Ensures.bind (placeAt_ensures shape h _) fun (x, y) _ => ?_
  exact Ensures.pure ⟨⟨by omega, by omega⟩, nofun⟩

end Scene

/-! ### Statements -/

/-- The type of the arguments that a statement takes; assignments and expressions take any. -/
def Stmt.Kind.takes : Stmt.Kind → Option Ty
  | .color _ => some .str
  | .assign .. | .expr _ => none
  | _ => some .intOrBool

/-- The brush is the one of before, or it was taken for an integer. -/
def KeepsBrush (pen pen' : Pen) : Prop :=
  pen'.brush = pen.brush ∨ ∃ n : Integer, pen'.brush = .ofSize n.val

/-- The acts that a statement can ask for with a pen: a figure only if it draws, an assignment to
its own variable, a jump to its own label; what it does to the pen otherwise is no more than a new
place, color, brush or way of filling. -/
def Act.Suits (s : Stmt) (pen : Pen) : Act → Prop
  | .settle pen' => s.isDrawing = false ∧ (∀ x e, s.kind ≠ .assign x e) ∧ KeepsBrush pen pen'
  | .assign x _ => ∃ e, s.kind = .assign x e
  | .draw f => s.isDrawing = true ∧ f.Fits pen ∧ (s.kind.command? ≠ some .fill → f ≠ .region)
  | .jump label => ∃ e, s.kind = .goTo label e
  | .rest => s.isDrawing = false ∧ ∀ x e, s.kind ≠ .assign x e

namespace Stmt

/-- **What reading a statement ensures.** Let the arguments of a statement be evaluated with
failures of `Q` only, and to values of the type that the statement takes unless a wrong type is
among these failures. If the errors of statements are among them too, then the statement is read
with failures of `Q` only, and asks for an act of its own. -/
theorem act_ensures {Q : Failure → Prop} {s : Stmt} {scene : Scene}
    (own : ∀ loc (e : RuntimeError), e.isOwn = true → Q ⟨loc, e⟩)
    (evaluates : ∀ e ∈ s.args, Ensures (fun _ => True) Q (e.eval scene))
    (gives : ∀ t, s.kind.takes = some t → ∀ e ∈ s.args, scene.Gives Q t e) :
    Ensures (Act.Suits s scene.pen) Q (s.act scene) := by
  have shape (loc : Location) (e : RuntimeError) (h : e.isShape = true) : Q ⟨loc, e⟩ :=
    own loc e (RuntimeError.isOwn_of_isShape h)
  have refused (loc : Location) (n : Integer) : Q ⟨loc, .badDirection n⟩ := own loc _ rfl
  obtain ⟨loc, kind⟩ := s
  -- placing the pen is the same for both commands that do it
  have placed (c : Command) {x y : Expr} (gives : ∀ e ∈ [x, y], scene.Gives Q .intOrBool e)
      (suits : ∀ x y, Act.Suits ⟨loc, kind⟩ scene.pen (.settle (scene.pen.moveTo x y))) :
      Ensures (Act.Suits ⟨loc, kind⟩ scene.pen) Q (scene.place c x y) := by
    simp only [List.forall_mem_cons] at gives
    refine Ensures.bind (Scene.integer_ensures _ gives.1) fun px _ => ?_
    refine Ensures.bind (Scene.integer_ensures _ gives.2.1) fun py _ => ?_
    split
    · exact Ensures.pure (suits px py)
    · exact Ensures.fail (own _ _ rfl)
  -- and so is reading the direction of a figure
  have directed (c : Command) {dx dy : Expr} {figure : Heading → Eval Figure}
      (gives : ∀ e ∈ [dx, dy], scene.Gives Q .intOrBool e)
      (next : ∀ h, Ensures (fun f => f.Fits scene.pen ∧ f ≠ .region) Q (figure h))
      (draws : Stmt.isDrawing ⟨loc, kind⟩ = true) :
      Ensures (Act.Suits ⟨loc, kind⟩ scene.pen) Q (scene.directed c dx dy figure) := by
    refine Ensures.bind (Scene.heading_ensures c gives fun e _ n => refused e.loc n) fun h _ => ?_
    refine Ensures.bind (next h) fun f fits => ?_
    exact Ensures.pure ⟨draws, fits.1, fun _ => fits.2⟩
  cases kind with
  | spawn x y => exact placed _ (gives _ rfl) fun _ _ => ⟨rfl, nofun, Or.inl rfl⟩
  | respawn x y => exact placed _ (gives _ rfl) fun _ _ => ⟨rfl, nofun, Or.inl rfl⟩
  | color e =>
      have given := gives _ rfl e List.mem_cons_self
      refine Ensures.bind (Scene.color_ensures _ given fun _ => own _ _ rfl) fun c _ => ?_
      exact Ensures.pure ⟨rfl, nofun, Or.inl rfl⟩
  | size e =>
      refine Ensures.bind (Scene.integer_ensures _ (gives _ rfl e List.mem_cons_self)) fun n _ => ?_
      exact Ensures.pure ⟨rfl, nofun, Or.inr ⟨n, rfl⟩⟩
  | drawLine dx dy d =>
      have given : ∀ e ∈ [dx, dy] ++ [d], scene.Gives Q .intOrBool e := gives _ rfl
      rw [List.forall_mem_append] at given
      have length := given.2 d List.mem_cons_self
      exact directed _ given.1 (fun h => Scene.line_ensures (shape loc) h length) rfl
  | drawCircle dx dy r =>
      have given : ∀ e ∈ [dx, dy] ++ [r], scene.Gives Q .intOrBool e := gives _ rfl
      rw [List.forall_mem_append] at given
      have radius := given.2 r List.mem_cons_self
      exact directed _ given.1 (fun h => Scene.circle_ensures (shape loc) h radius) rfl
  | drawRectangle dx dy d w t =>
      have given : ∀ e ∈ [dx, dy] ++ [d, w, t], scene.Gives Q .intOrBool e := gives _ rfl
      rw [List.forall_mem_append] at given
      exact directed _ given.1 (fun h => Scene.rectangle_ensures (shape loc) h given.2) rfl
  | fill => exact Ensures.pure ⟨rfl, trivial, fun other => absurd rfl other⟩
  | filling e =>
      refine Ensures.bind (Scene.truth_ensures _ (gives _ rfl e List.mem_cons_self)) fun b _ => ?_
      exact Ensures.pure ⟨rfl, nofun, Or.inl rfl⟩
  | assign x e =>
      refine Ensures.bind (evaluates e List.mem_cons_self) fun v _ => ?_
      exact Ensures.pure ⟨e, rfl⟩
  | label name => exact Ensures.pure ⟨rfl, nofun⟩
  | goTo label e =>
      refine Ensures.bind (Scene.truth_ensures _ (gives _ rfl e List.mem_cons_self))
        fun holds _ => ?_
      refine Ensures.pure ?_
      cases holds with
      | true => exact ⟨e, rfl⟩
      | false => exact ⟨rfl, nofun⟩
  | expr e =>
      refine Ensures.bind (evaluates e List.mem_cons_self) fun v _ => ?_
      exact Ensures.pure ⟨rfl, nofun⟩

/-- Whatever the arguments, a statement asks for an act of its own. -/
theorem act_suits (s : Stmt) (scene : Scene) :
    Ensures (Act.Suits s scene.pen) (fun _ => True) (s.act scene) :=
  act_ensures (fun _ _ _ => trivial) (fun _ _ => Ensures.trivial _) fun _ _ _ _ =>
    (Ensures.trivial _).imp fun _ _ => Or.inr fun _ => trivial

/-- A statement asks for a jump exactly if it is one and its condition holds. -/
theorem act_eq_jump_iff {s : Stmt} {scene : Scene} {label : String} {throws throws' : Nat} :
    s.act scene throws = .ok (.jump label, throws') ↔
      ∃ e, s.kind = .goTo label e ∧
        scene.truth (.condition label) e throws = .ok (true, throws') := by
  have reads (loc : Location) (e : Expr) : Stmt.act ⟨loc, .goTo label e⟩ scene =
      scene.truth (.condition label) e >>= fun holds =>
        pure (if holds then Act.jump label else .rest) := rfl
  constructor
  · intro read
    obtain ⟨e, kind⟩ := (s.act_suits scene).of_eq_ok read
    refine ⟨e, kind, ?_⟩
    obtain ⟨loc, _⟩ := s
    cases kind
    rw [reads] at read
    cases condition : scene.truth (.condition label) e throws with
    | error f =>
        rw [Eval.bind_of_error condition] at read
        cases read
    | ok r =>
        obtain ⟨holds, throws''⟩ := r
        rw [Eval.bind_of_ok condition] at read
        cases holds with
        | true =>
            cases read
            rfl
        | false => cases read
  · rintro ⟨e, kind, holds⟩
    obtain ⟨loc, _⟩ := s
    cases kind
    rw [reads, Eval.bind_of_ok holds]
    rfl

/-- Two scenes in which the arguments of a statement have the same values, and with the same pen,
are the same to the statement, as long as no place of the first one is missing in the second one.
Only a place that is missing in the first one may be there in the second one. -/
theorem act_congr {s : Stmt} (scene scene' : Scene) (pen : scene'.pen = scene.pen)
    (same : ∀ e ∈ s.args, e.eval scene' = e.eval scene)
    (larger : ∀ q, scene.canvas.Contains q → scene'.canvas.Contains q) (throws : Nat) :
    s.act scene' throws = s.act scene throws ∨
      ∃ loc x y w h, s.act scene throws = .error ⟨loc, .outside x y w h⟩ := by
  have integers {e : Expr} (h : e.eval scene' = e.eval scene) (role : Role) :
      scene'.integer role e = scene.integer role e := by
    rw [Scene.integer, Scene.integer, h]
  have truths {e : Expr} (h : e.eval scene' = e.eval scene) (role : Role) :
      scene'.truth role e = scene.truth role e := by
    rw [Scene.truth, Scene.truth, h]
  have places (h : Heading) (n : Int) (loc : Location) :
      scene'.placeAt h n loc = scene.placeAt h n loc := by
    rw [Scene.placeAt, Scene.placeAt, pen]
  have headings {dx dy : Expr} (hx : dx.eval scene' = dx.eval scene)
      (hy : dy.eval scene' = dy.eval scene) (c : Command) :
      scene'.heading c dx dy = scene.heading c dx dy := by
    simp only [Scene.heading, Scene.sign, integers hx, integers hy]
  -- the canvas is looked at only here
  have placed (c : Command) {x y : Expr} (hx : x.eval scene' = x.eval scene)
      (hy : y.eval scene' = y.eval scene) :
      scene'.place c x y throws = scene.place c x y throws ∨
        ∃ loc px py w h, scene.place c x y throws = .error ⟨loc, .outside px py w h⟩ := by
    simp only [Scene.place, integers hx, integers hy, pen]
    cases first : scene.integer (.argument 1 c.name) x throws with
    | error f => exact Or.inl (by rw [Eval.bind_of_error first, Eval.bind_of_error first])
    | ok r =>
        rw [Eval.bind_of_ok first, Eval.bind_of_ok first]
        cases second : scene.integer (.argument 2 c.name) y r.2 with
        | error f => exact Or.inl (by rw [Eval.bind_of_error second, Eval.bind_of_error second])
        | ok r' =>
            rw [Eval.bind_of_ok second, Eval.bind_of_ok second]
            by_cases inside : scene.canvas.Contains ⟨r.1.val, r'.1.val⟩
            · exact Or.inl (by rw [if_pos inside, if_pos (larger _ inside)])
            · rw [if_neg inside]
              exact Or.inr ⟨_, _, _, _, _, rfl⟩
  obtain ⟨loc, kind⟩ := s
  simp only [Stmt.args] at same
  cases kind with
  | spawn x y | respawn x y =>
      simp only [Kind.args, List.forall_mem_cons] at same
      exact placed _ same.1 same.2.1
  | color e =>
      refine Or.inl ?_
      simp only [act, Scene.color, same e List.mem_cons_self, pen]
  | size e =>
      refine Or.inl ?_
      simp only [act, integers (same e List.mem_cons_self), pen]
  | drawLine dx dy d =>
      simp only [Kind.args, List.forall_mem_cons] at same
      refine Or.inl ?_
      simp only [act, Scene.directed, headings same.1 same.2.1, Scene.line, integers same.2.2.1,
        places]
  | drawCircle dx dy r =>
      simp only [Kind.args, List.forall_mem_cons] at same
      refine Or.inl ?_
      simp only [act, Scene.directed, headings same.1 same.2.1, Scene.circle, integers same.2.2.1,
        places]
  | drawRectangle dx dy d w t =>
      simp only [Kind.args, List.forall_mem_cons] at same
      obtain ⟨hx, hy, hd, hw, ht, -⟩ := same
      refine Or.inl ?_
      simp only [act, Scene.directed, headings hx hy, Scene.rectangle, integers hd, integers hw,
        integers ht, places]
  | filling e =>
      refine Or.inl ?_
      simp only [act, truths (same e List.mem_cons_self), pen]
  | assign x e =>
      refine Or.inl ?_
      simp only [act, same e List.mem_cons_self]
  | goTo label e =>
      refine Or.inl ?_
      simp only [act, truths (same e List.mem_cons_self)]
  | expr e =>
      refine Or.inl ?_
      simp only [act, same e List.mem_cons_self]
  | fill | label _ => exact Or.inl rfl

end Stmt

end PenScript
