import PenScript.Proofs.Grammar
import PenScript.Proofs.Intact
import PenScript.Proofs.Plane

/-!
# A larger canvas

A program that does not ask for the canvas and does not flood regions does the same on a larger
canvas, and the smaller picture is the top left part of the larger one. Two machines with canvases
of different sizes are run side by side. They read the same arguments and come to the same figures;
and a figure paints the same points on both canvases, as far as they are on both, unless a number of
the drawing is out of range on one of them. Only placing the pen looks at the sides of the canvas:
what is inside of the smaller one is inside of the larger one, and what is outside fails.

## Main definitions

* `Program.Blind` — the program asks neither for the canvas nor for the dice, and floods nothing;
* `Canvas.crop`, `Canvas.PartOf` — the top left part of a canvas;
* `Machine.Framed` — two machines that differ in what is outside of the smaller canvas.

## Main results

* `Expr.eval_of_blind`: an expression that asks for nothing has the same value on all canvases;
* `Machine.draw_framed`, `Machine.exec_framed`: the same figure and the same statement on two
  canvases;
* `Machine.smaller_canvas_crops`: the crop law.
-/

namespace PenScript

/-! ### Programs that do not look -/

/-- The query asks for the canvas or for the dice. -/
def Query.looks : Query → Bool
  | canvasSize | canvasColor | colorCount | randomInt => true
  | actualX | actualY | brushColor | brushSize => false

namespace Expr

/-- The node is a call that asks for the canvas or for the dice. -/
def looks : Expr → Bool
  | call _ f _ => (Query.ofName? f).any Query.looks
  | _ => false

/-- No call within the expression asks for the canvas or for the dice. -/
def Blind (e : Expr) : Prop :=
  ∀ n ∈ e.preorder, n.looks = false

instance (e : Expr) : Decidable e.Blind :=
  inferInstanceAs (Decidable (∀ n ∈ e.preorder, n.looks = false))

end Expr

/-- The statement does not flood, and its arguments ask neither for the canvas nor for the dice. -/
def Stmt.Blind (s : Stmt) : Prop :=
  s.kind.command? ≠ some .fill ∧ ∀ e ∈ s.args, e.Blind

instance (s : Stmt) : Decidable s.Blind :=
  inferInstanceAs (Decidable (_ ∧ _))

/-- No statement floods, and none asks for the canvas or for the dice. -/
def Program.Blind (p : Program) : Prop :=
  ∀ s ∈ p.stmts, s.Blind

instance (p : Program) : Decidable p.Blind :=
  inferInstanceAs (Decidable (∀ s ∈ p.stmts, s.Blind))

section Blind

variable (s : Scene) (canvas : Canvas) (dice : Nat → Nat)

/-- The other queries have the same answer whatever the canvas and the dice. -/
theorem Query.ask_of_blind {q : Query} (blind : q.looks = false) (loc : Location)
    (args : List Value) : q.ask { s with canvas, dice } loc args = q.ask s loc args := by
  cases q with
  | actualX | actualY | brushColor | brushSize =>
      rcases args with _ | ⟨a, _ | ⟨b, rest⟩⟩ <;> rfl
  | canvasSize | canvasColor | colorCount | randomInt => cases blind

namespace Expr

/-- Arguments that have the same values one by one have the same values together. -/
theorem evalAll_congr {s s' : Scene} {es : List Expr}
    (each : ∀ e ∈ es, e.eval s' = e.eval s) : evalAll s' es = evalAll s es := by
  induction es with
  | nil => rw [evalAll, evalAll]
  | cons e es ih =>
      obtain ⟨first, others⟩ := List.forall_mem_cons.1 each
      rw [evalAll, evalAll, first, ih others]

/-- **An expression that asks for nothing** has the same value whatever the canvas and the dice. -/
theorem eval_of_blind {e : Expr} (blind : e.Blind) :
    e.eval { s with canvas, dice } = e.eval s := by
  induction e using inductionOn with
  | lit l v => rw [eval, eval]
  | var l x => rw [eval, eval]
  | call l f args ih =>
      obtain ⟨top, below⟩ := forall_mem_preorder_call.1 blind
      rw [eval, eval, evalAll_congr fun a member => ih a member (below a member)]
      cases named : Query.ofName? f with
      | none => rfl
      | some q =>
          have unseeing : q.looks = false := by simpa [looks, named] using top
          dsimp only
          simp only [Query.ask_of_blind s canvas dice unseeing]
  | group l e ih =>
      simp only [Blind, preorder, List.forall_mem_cons] at blind
      rw [eval, eval, ih blind.2]
  | unary l op e ih =>
      simp only [Blind, preorder, List.forall_mem_cons] at blind
      cases op with
      | not | neg => rw [eval, eval, ih blind.2]
  | binary l op a b iha ihb =>
      simp only [Blind, preorder, List.forall_mem_cons, List.forall_mem_append] at blind
      obtain ⟨-, left, right⟩ := blind
      simp only [eval, iha left, ihb right]

end Expr

end Blind

/-! ### Parts of canvases -/

namespace Canvas

/-- The top left part of a canvas. -/
def crop (c : Canvas) (width height : Nat) : Canvas :=
  ofFn width height fun x y => c.get ⟨x, y⟩

/-- One canvas is the top left part of another one: it is no wider and no higher, and its pixels are
the same on the other one. -/
structure PartOf (small large : Canvas) : Prop where
  width : small.width ≤ large.width
  height : small.height ≤ large.height
  get : ∀ q, small.Contains q → large.get q = small.get q

variable {small large : Canvas}

/-- What is inside of the part is inside of the whole. -/
theorem PartOf.contains (part : PartOf small large) {q : Point} (inside : small.Contains q) :
    large.Contains q := by
  have width := part.width
  have height := part.height
  simp only [Contains] at inside ⊢
  omega

/-- The pixel with number `i` is on the canvas. -/
theorem contains_of_index (c : Canvas) {i : Nat} (h : i < c.width * c.height) :
    c.Contains ⟨(i % c.width : Nat), (i / c.width : Nat)⟩ := by
  have wide : 0 < c.width := Nat.pos_of_mul_pos_right (Nat.lt_of_le_of_lt (Nat.zero_le i) h)
  have column : i % c.width < c.width := Nat.mod_lt i wide
  have row : i / c.width < c.height := Nat.div_lt_of_lt_mul h
  exact ⟨⟨Int.natCast_nonneg _, Int.ofNat_lt.2 column⟩, Int.natCast_nonneg _, Int.ofNat_lt.2 row⟩

/-- The pixel with number `i` is in column `i % width` of row `i / width`. -/
theorem get_of_index (c : Canvas) {i : Nat} (h : i < c.width * c.height) :
    c.get ⟨(i % c.width : Nat), (i / c.width : Nat)⟩ = c.pixels[i] := by
  have place : c.index? ⟨(i % c.width : Nat), (i / c.width : Nat)⟩ = some ⟨i, h⟩ := by
    refine index?_eq_some_iff.2 ⟨c.contains_of_index h, ?_⟩
    simp only [Int.toNat_natCast]
    rw [Nat.mul_comm]
    exact Nat.div_add_mod i c.width
  rw [get, place]
  rfl

/-- A blank canvas is part of every larger one. -/
theorem partOf_blank {w h w' h' : Nat} (wide : w ≤ w') (high : h ≤ h') :
    PartOf (blank w h) (blank w' h') := by
  have white {w h : Nat} {q : Point} (inside : (blank w h).Contains q) :
      (blank w h).get q = .white := by
    obtain ⟨i, place⟩ := Option.ne_none_iff_exists'.1 fun none => index?_eq_none_iff.1 none inside
    rw [get, place]
    exact Vector.getElem_replicate _
  refine ⟨wide, high, fun q inside => ?_⟩
  have inside' : (blank w' h').Contains q := by
    simp only [Contains, blank, filled] at inside ⊢
    omega
  rw [white inside, white inside']

/-- The part is what is cut out of the whole. -/
theorem PartOf.crop_eq (part : PartOf small large) :
    large.crop small.width small.height = small := by
  have pixel {i : Nat} (h : i < small.width * small.height) :
      large.get ⟨(i % small.width : Nat), (i / small.width : Nat)⟩ = small.pixels[i] := by
    rw [← small.get_of_index h]
    exact part.get _ (small.contains_of_index h)
  have pixels : Vector.ofFn (fun i : Fin (small.width * small.height) =>
      large.get ⟨(i.val % small.width : Nat), (i.val / small.width : Nat)⟩) = small.pixels :=
    Vector.ext fun i below => by rw [Vector.getElem_ofFn, pixel below]
  rw [crop, ofFn, pixels]

/-- Where the same pixels are painted on both, the part stays a part. -/
theorem PartOf.lay (part : PartOf small large) (color : Color) {ps ps' : List Point}
    (once : ps.Nodup) (once' : ps'.Nodup)
    (same : ∀ q, small.Contains q → (q ∈ ps' ↔ q ∈ ps)) :
    PartOf (small.lay color ps) (large.lay color ps') where
  width := by rw [width_lay, width_lay]; exact part.width
  height := by rw [height_lay, height_lay]; exact part.height
  get q inside := by
    have inside : small.Contains q := by rwa [Contains, width_lay, height_lay] at inside
    rw [get_lay once inside, get_lay once' (part.contains inside), part.get q inside]
    simp only [same q inside]

end Canvas

/-! ### Two machines -/

namespace Halt

/-- The run was stopped without a failure. -/
def Unfailed (halt : Halt) : Prop :=
  ∀ f, halt ≠ .failed f

/-- The reasons to stop on the smaller canvas that say nothing about the larger one: it was no
failure, or the pen was placed outside. -/
def Excuses (halt : Halt) : Prop :=
  halt.Unfailed ∨ ∃ loc x y w h, halt = .failed ⟨loc, .outside x y w h⟩

/-- A run without a failure is stopped by a cancellation, by an endless pause or by an overflow. -/
theorem Unfailed.cases {halt : Halt} (unfailed : halt.Unfailed) :
    halt = .cancelled ∨ halt = .asleep ∨ halt = .overflow := by
  cases halt with
  | cancelled => exact Or.inl rfl
  | asleep => exact Or.inr (Or.inl rfl)
  | overflow => exact Or.inr (Or.inr rfl)
  | failed f => exact absurd rfl (unfailed f)

/-- A cancellation is no failure, nor is a pause that never ends. -/
theorem unfailed_of_outer {halt : Halt} (outer : halt = .cancelled ∨ halt = .asleep) :
    halt.Unfailed := by
  intro f failed
  rcases outer with rfl | rfl <;> cases failed

end Halt

namespace Machine

variable {m n : Machine}

/-- The canvas of the first machine is the top left part of the canvas of the second one, and all
else but the reporters is the same. -/
structure Framed (m n : Machine) : Prop where
  pen : n.pen = m.pen
  vars : n.vars = m.vars
  flow : n.flow = m.flow
  throws : n.throws = m.throws
  canvas : m.canvas.PartOf n.canvas

/-- The loop does not look at the canvas. -/
theorem abreast_framed : Abreast Framed Halt.Excuses Halt.Unfailed where
  reporter _ _ framed := ⟨framed.pen, framed.vars, framed.flow, framed.throws, framed.canvas⟩
  flow framed := framed.flow
  setFlow _ framed := ⟨framed.pen, framed.vars, rfl, framed.throws, framed.canvas⟩
  first _ outer := Or.inl (Halt.unfailed_of_outer outer)
  second _ := Halt.unfailed_of_outer

/-- The ends of the same step on a smaller and on a larger canvas. -/
abbrev Crops (r r' : EStateM.Result Halt Machine Unit) : Prop :=
  Simulates Framed Halt.Excuses Halt.Unfailed r r'

/-- What is settled alike on both machines. -/
theorem Framed.settle (framed : Framed m n) (pen : Pen) (vars : Table Value) (pc : Nat) :
    Framed { m with pen, vars, flow := { m.flow with pc } }
      { n with pen, vars, flow := { n.flow with pc } } :=
  ⟨rfl, rfl, by rw [framed.flow], framed.throws, framed.canvas⟩

/-! ### Drawing -/

/-- The same points are painted on both canvases, as far as they are on both. -/
theorem paint_framed (color : Color) {ps ps' : List Point} (framed : Framed m n)
    (once : ps.Nodup) (once' : ps'.Nodup)
    (same : ∀ q, m.canvas.Contains q → (q ∈ ps' ↔ q ∈ ps)) :
    Crops (paintPixels color ps m) (paintPixels color ps' n) := by
  obtain ⟨_, _, painted | ⟨_, outer, stopped⟩⟩ := paintPixels_cases color ps m
  · obtain ⟨_, _, painted' | ⟨_, outer', stopped'⟩⟩ := paintPixels_cases color ps' n
    · obtain ⟨reporter, left⟩ := paintPixels_eq_ok painted
      obtain ⟨reporter', left'⟩ := paintPixels_eq_ok painted'
      rw [painted, painted', left, left']
      exact .ok ⟨framed.pen, framed.vars, framed.flow, framed.throws,
        framed.canvas.lay color once once' same⟩
    · rw [stopped']
      exact .second (Halt.unfailed_of_outer outer')
  · rw [stopped]
    exact .first (Or.inl (Halt.unfailed_of_outer outer))

/-- Painting that is not all there is to paint ends without a failure. -/
theorem unfailed_of_broken (color : Color) (ps : List Point) (g : Machine → Machine)
    (m : Machine) :
    ∃ halt m', settled false g (paintPixels color ps m) = .error halt m' ∧ halt.Unfailed := by
  obtain ⟨_, _, painted | ⟨_, outer, stopped⟩⟩ := paintPixels_cases color ps m
  · refine ⟨.overflow, _, by rw [painted]; rfl, ?_⟩
    intro f failed
    cases failed
  · exact ⟨_, _, by rw [stopped]; rfl, Halt.unfailed_of_outer outer⟩

/-- A drawing that is broken off on the smaller canvas is an excuse. -/
theorem crops_of_broken (color : Color) (ps : List Point) (g : Machine → Machine)
    (r : EStateM.Result Halt Machine Unit) :
    Crops (settled false g (paintPixels color ps m)) r := by
  obtain ⟨halt, m', stopped, unfailed⟩ := unfailed_of_broken color ps g m
  rw [stopped]
  exact .first (Or.inl unfailed)

/-- So is a drawing that is broken off on the larger canvas. -/
theorem crops_of_broken_larger (color : Color) (ps : List Point) (g : Machine → Machine)
    (r : EStateM.Result Halt Machine Unit) :
    Crops r (settled false g (paintPixels color ps n)) := by
  obtain ⟨halt, n', stopped, unfailed⟩ := unfailed_of_broken color ps g n
  rw [stopped]
  exact .second unfailed

end Machine

/-- The pen behind a figure does not depend on the canvas. -/
theorem Figure.pen_drawing (f : Figure) (c c' : Canvas) (pen : Pen) :
    (f.drawing c' pen).pen = (f.drawing c pen).pen := by
  cases f with
  | stroke h n x y => rfl
  | circle x y r =>
      simp only [drawing]
      split <;> rfl
  | rectangle x y w t =>
      simp only [drawing]
      split <;> rfl
  | region => rfl

/-- No pixel of a drawing is painted twice. -/
theorem Drawing.nodup_pixels (d : Drawing) (c : Canvas) : (d.coat c).pixels.Nodup := by
  rw [Drawing.coat]
  split
  · rw [Canvas.pixels_coat]
    exact c.nodup_covered _ _
  · exact List.nodup_nil

namespace Machine

variable {m n : Machine}

/-- **The same figure on two canvases.** -/
theorem draw_framed {f : Figure} (framed : Framed m n) (fits : f.Fits m.pen) (shape : f ≠ .region)
    (loc : Location) (throws : Nat) :
    Crops ((Deed.ofAct loc throws m (.draw f)).act m)
      ((Deed.ofAct loc throws n (.draw f)).act n) := by
  rw [Deed.ofAct, Deed.ofAct, act_perform, act_perform, framed.pen]
  cases whole : ((f.drawing m.canvas m.pen).coat m.canvas).whole with
  | false => exact crops_of_broken _ _ _ _
  | true =>
      cases whole' : ((f.drawing n.canvas m.pen).coat n.canvas).whole with
      | false => exact crops_of_broken_larger _ _ _ _
      | true =>
          -- the centers differ, since each canvas leaves out others, but what they cover does not
          have same (q : Point) (inside : m.canvas.Contains q) :
              q ∈ ((f.drawing n.canvas m.pen).coat n.canvas).pixels ↔
                q ∈ ((f.drawing m.canvas m.pen).coat m.canvas).pixels := by
            rw [Figure.mem_pixels_drawing fits shape whole,
              Figure.mem_pixels_drawing fits shape whole']
            exact and_congr_left' ⟨fun _ => inside, fun _ => framed.canvas.contains inside⟩
          have start : Framed { m with throws } { n with pen := m.pen, throws } :=
            ⟨rfl, framed.vars, framed.flow, rfl, framed.canvas⟩
          refine (paint_framed m.pen.color start (Drawing.nodup_pixels _ _)
            (Drawing.nodup_pixels _ _) same).settled (fun m' n' framed' => ?_) true
          rw [framed.vars, framed.flow, f.pen_drawing m.canvas n.canvas m.pen]
          exact framed'.settle _ _ _

/-! ### Statements -/

/-- What a statement asks for is done on both canvases. -/
theorem act_framed {s : Stmt} {act : Act} (framed : Framed m n) (blind : s.Blind)
    (suits : act.Suits s m.pen) (loc : Location) (throws : Nat) :
    Crops ((Deed.ofAct loc throws m act).act m) ((Deed.ofAct loc throws n act).act n) := by
  have start : Framed { m with throws } { n with throws } :=
    ⟨framed.pen, framed.vars, framed.flow, rfl, framed.canvas⟩
  cases act with
  | draw f => exact draw_framed framed suits.2.1 (suits.2.2 blind.1) loc throws
  | settle pen =>
      rw [Deed.ofAct, Deed.ofAct, framed.vars, framed.flow]
      exact .ok (start.settle _ _ _)
  | assign x v =>
      rw [Deed.ofAct, Deed.ofAct, framed.vars, framed.pen, framed.flow]
      exact .ok (start.settle _ _ _)
  | rest =>
      rw [Deed.ofAct, Deed.ofAct, framed.vars, framed.pen, framed.flow]
      exact .ok (start.settle _ _ _)
  | jump label =>
      rw [Deed.ofAct, Deed.ofAct, framed.vars, framed.pen, framed.flow]
      cases m.flow.labels.get? label with
      | none => exact .stopped start
      | some pc => exact .ok (start.settle _ _ _)

/-- **The same statement on two canvases.** -/
theorem exec_framed (dice dice' : Nat → Nat) {s : Stmt} (blind : s.Blind) (framed : Framed m n) :
    Crops (exec dice s m) (exec dice' s n) := by
  have same (e : Expr) (member : e ∈ s.args) : e.eval (n.scene dice') = e.eval (m.scene dice) := by
    rw [scene, framed.pen, framed.vars]
    exact Expr.eval_of_blind (m.scene dice) n.canvas dice' (blind.2 e member)
  rw [exec_eq_act, exec_eq_act, deed, deed, framed.throws]
  obtain read | ⟨loc, x, y, w, h, outside⟩ := Stmt.act_congr (m.scene dice)
    (n.scene dice') framed.pen same (fun _ => framed.canvas.contains) m.throws
  · rw [read]
    cases reads : s.act (m.scene dice) m.throws with
    | error f =>
        exact .stopped ⟨framed.pen, framed.vars, framed.flow, rfl, framed.canvas⟩
    | ok r =>
        exact act_framed framed blind ((s.act_suits _).of_eq_ok reads) s.loc r.2
  · -- the larger canvas may take the pen, so the failure on the smaller one is an excuse
    rw [outside]
    exact .first (Or.inr ⟨loc, x, y, w, h, rfl⟩)

/-! ### Runs -/

section Runs

variable (dice dice' : Nat → Nat)

/-- **The crop law.** Let a program flood nothing, and ask neither for the canvas nor for the dice,
and let no run sleep for ever. If its run on a blank canvas does not fail because the pen is placed
outside, and no number of a drawing leaves the range, then its run on a larger blank canvas has the
same outcome and leaves the same pen and the same variables; and the smaller picture is the top left
part of the larger one. -/
theorem smaller_canvas_crops (p : Program) (limit : Nat) (pace pace' : Pace) (throws : Nat)
    (w h w' h' : Nat) (blind : p.Blind) (wide : w ≤ w') (high : h ≤ h')
    (passing : pace.Passing) (passing' : pace'.Passing)
    (inside : ∀ loc x y width height,
      (run dice p limit (fresh (.blank w h) pace .never throws)).1 ≠
        .failed ⟨loc, .outside x y width height⟩)
    (inRange : (run dice p limit (fresh (.blank w h) pace .never throws)).1 ≠ .overflow)
    (inRange' : (run dice' p limit (fresh (.blank w' h') pace' .never throws)).1 ≠ .overflow) :
    let small := run dice p limit (fresh (.blank w h) pace .never throws)
    let large := run dice' p limit (fresh (.blank w' h') pace' .never throws)
    large.1 = small.1 ∧ large.2.pen = small.2.pen ∧ large.2.vars = small.2.vars ∧
      large.2.canvas.crop w h = small.2.canvas := by
  intro small large
  have start : Framed (fresh (.blank w h) pace .never throws).restart
      (fresh (.blank w' h') pace' .never throws).restart :=
    ⟨rfl, rfl, rfl, rfl, Canvas.partOf_blank wide high⟩
  obtain ⟨uncancelled, awake⟩ : small.1.Undisturbed :=
    run_of_passing dice p limit ⟨rfl, rfl⟩ passing
  obtain ⟨uncancelled', awake'⟩ : large.1.Undisturbed :=
    run_of_passing dice' p limit ⟨rfl, rfl⟩ passing'
  have failed {o : Outcome} (uncancelled : o ≠ .cancelled) (awake : o ≠ .asleep)
      (inRange : o ≠ .overflow) (halt : Halt) (ended : o = halt.outcome) : ¬halt.Unfailed := by
    intro unfailed
    rcases unfailed.cases with rfl | rfl | rfl
    · exact uncancelled ended
    · exact awake ended
    · exact inRange ended
  obtain ⟨outcome, framed⟩ := run_simulates abreast_framed
    (fun s member m n => exec_framed dice dice' (blind s member)) start
    (fun halt ended => by
      rintro (unfailed | ⟨loc, x, y, width, height, rfl⟩)
      · exact failed uncancelled awake inRange halt ended unfailed
      · exact inside loc x y width height ended)
    (failed uncancelled' awake' inRange')
  have solid : small.2.canvas.Solid w h :=
    (run_invariant (fun _ _ step intact => Intact.step step intact) dice p limit
      (intact_fresh w h pace .never throws)).canvas
  have cut := framed.canvas.crop_eq
  rw [solid.width, solid.height] at cut
  exact ⟨outcome.symm, framed.pen, framed.vars, cut⟩

end Runs

/-- A program that draws a line over the edge of a small canvas, and a rectangle around it. -/
def overTheEdge : Program where
  stmts := [
    ⟨⟨1, 1⟩, .spawn (.lit ⟨1, 7⟩ (.int .one)) (.lit ⟨1, 10⟩ (.int .zero))⟩,
    ⟨⟨2, 1⟩, .drawLine (.lit ⟨2, 10⟩ (.int .one)) (.lit ⟨2, 13⟩ (.int .one))
      (.lit ⟨2, 16⟩ (.int (.saturate 3)))⟩,
    ⟨⟨3, 1⟩, .drawRectangle (.unary ⟨3, 15⟩ .neg (.lit ⟨3, 16⟩ (.int .one)))
      (.lit ⟨3, 19⟩ (.int .zero)) (.lit ⟨3, 22⟩ (.int (.saturate 3)))
      (.lit ⟨3, 25⟩ (.int (.saturate 3)))
      (.lit ⟨3, 28⟩ (.int (.saturate 2)))⟩]

/-- The small picture of the line and the rectangle is cut out of the large one. -/
theorem overTheEdge_is_cropped :
    (run (fun _ => 0) overTheEdge 10 (fresh (.blank 2 2) {} .never 0)).1 = .completed ∧
      (run (fun _ => 1) overTheEdge 10 (fresh (.blank 5 4) {} .never 0)).1 = .completed ∧
      (run (fun _ => 1) overTheEdge 10 (fresh (.blank 5 4) {} .never 0)).2.canvas.crop 2 2 =
        (run (fun _ => 0) overTheEdge 10 (fresh (.blank 2 2) {} .never 0)).2.canvas := by
  have ended : (run (fun _ => 0) overTheEdge 10 (fresh (.blank 2 2) {} .never 0)).1 =
      .completed := by decide +kernel
  have inside (loc : Location) (x y : Integer) (width height : Nat) :
      (run (fun _ => 0) overTheEdge 10 (fresh (.blank 2 2) {} .never 0)).1 ≠
        .failed ⟨loc, .outside x y width height⟩ := by
    rw [ended]
    exact Outcome.noConfusion
  have ended' : (run (fun _ => 1) overTheEdge 10 (fresh (.blank 5 4) {} .never 0)).1 =
      .completed := by decide +kernel
  obtain ⟨outcome, -, -, cut⟩ := smaller_canvas_crops (fun _ => 0) (fun _ => 1) overTheEdge 10 {} {}
    0 2 2 5 4 (by decide +kernel) (by decide) (by decide) (by decide) (by decide) inside
    (by rw [ended]; nofun) (by rw [ended']; nofun)
  exact ⟨ended, outcome.trans ended, cut⟩

end Machine

end PenScript
