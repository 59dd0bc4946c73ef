import PenScript.Proofs.Judgement
import PenScript.Proofs.Steering

/-!
# Constants mean the same before and during a run

Two things about values are checked before a program runs: constant directions, and color literals.
For that, literals under brackets and minus signs are evaluated a second time, by a recursion that
knows neither scenes nor failures. It agrees with the evaluator in every scene. So what is refused
before the run is refused during the run as well, before anything is drawn; and a constant that
passed is never refused as a direction.

## Main definitions

* `Blames` — a direction was refused because of a component that is no constant, or that was refused
  before the run.

## Main results

* `Expr.eval_of_constantInt?`: a constant evaluates to its value in every scene;
* `Scene.sign_of_constant`: a constant as a direction, in every scene;
* `Stmt.act_blames`: whose fault it is if a direction is refused;
* `Machine.constant_checks_agree`: the checks of constants agree with execution.
-/

namespace PenScript

/-! ### Evaluating constants -/

/-- A negation that is in range evaluates to the negated reading. -/
theorem Expr.eval_neg {s : Scene} {l : Location} {e : Expr} {w : Value} {n v : Integer}
    (arg : e.eval s = pure w) (reading : w.asInt? = some n) (negated : n.neg? = some v) :
    (unary l .neg e).eval s = pure (.int v) := by
  rw [eval, arg, pure_bind, Eval.integer, reading, pure_bind, negated]
  rfl

/-- **A constant evaluates to its value**, whatever the scene is and without a throw of the dice. -/
theorem Expr.eval_of_constantInt? {e : Expr} {v : Integer} (constant : e.constantInt? = some v) :
    ∃ w : Value, w.asInt? = some v ∧ ∀ s, e.eval s = pure w := by
  fun_induction constantInt? e generalizing v with
  | case1 l w => exact ⟨w, constant, fun s => by rw [eval]⟩
  | case2 l e ih =>
      obtain ⟨w, reading, evaluates⟩ := ih constant
      exact ⟨w, reading, fun s => by rw [eval, evaluates s]⟩
  | case3 l e ih =>
      obtain ⟨n, inner, negated⟩ := Option.bind_eq_some_iff.1 constant
      obtain ⟨w, reading, evaluates⟩ := ih inner
      exact ⟨.int v, rfl, fun s => eval_neg (evaluates s) reading negated⟩
  | case4 => cases constant

/-- The error that a direction is refused. -/
def RuntimeError.isDirection : RuntimeError → Bool
  | badDirection _ => true
  | _ => false

/-- Errors of expressions are not about directions. -/
theorem RuntimeError.isDirection_of_isInner {e : RuntimeError} (inner : e.isInner = true) :
    e.isDirection = false := by
  cases e with
  | badDirection => cases inner
  | _ => rfl

/-- Errors about the numbers of a figure are not about directions. -/
theorem RuntimeError.isDirection_of_isShape {e : RuntimeError} (shape : e.isShape = true) :
    e.isDirection = false := by
  cases e with
  | badDirection => cases shape
  | _ => rfl

open Eval

/-! ### Constant directions -/

namespace Scene

variable (scene : Scene) {e : Expr} {v : Integer}

/-- A constant is read as its value. -/
theorem integer_of_constant (constant : e.constantInt? = some v) (role : Role) :
    scene.integer role e = pure v := by
  obtain ⟨w, reading, evaluates⟩ := Expr.eval_of_constantInt? constant
  rw [integer, evaluates, pure_bind, Eval.integer, reading]

/-- A constant is the direction that its value says, or it is refused, with the words and at the
place that are known before the run. -/
theorem sign_of_constant (constant : e.constantInt? = some v) (c : Command) (i : Nat) :
    (Stmt.directionErrors e = [] ∧ ∃ σ : Sign, σ.toInt = v.val ∧ scene.sign c i e = pure σ) ∨
      Stmt.directionErrors e = [⟨e.loc, .badDirection v⟩] ∧
        scene.sign c i e = Eval.fail e.loc (.badDirection v) := by
  rw [sign, scene.integer_of_constant constant, pure_bind, Stmt.directionErrors, constant]
  cases found : Sign.ofInt? v.val with
  | some σ =>
      have value := Sign.ofInt?_eq_some_iff.1 found
      have small : -1 ≤ v.val ∧ v.val ≤ 1 := by
        refine Decidable.not_not.1 fun large => ?_
        rw [Sign.ofInt?_eq_none_iff.2 large] at found
        cases found
      exact Or.inl ⟨if_pos small, σ, value, rfl⟩
  | none => exact Or.inr ⟨if_neg (Sign.ofInt?_eq_none_iff.1 found), rfl⟩

/-- A component that was refused before the run is refused during the run. -/
theorem sign_of_flagged (flagged : Stmt.directionErrors e ≠ []) (c : Command) (i : Nat) :
    ∃ f, ∀ throws, scene.sign c i e throws = .error f := by
  cases constant : e.constantInt? with
  | none => exact absurd (by rw [Stmt.directionErrors, constant]) flagged
  | some v =>
      obtain ⟨clean, -⟩ | ⟨-, refused⟩ := scene.sign_of_constant constant c i
      · exact absurd clean flagged
      · exact ⟨_, fun throws => by rw [refused]; rfl⟩

/-- A direction with such a component is not found during the run. -/
theorem heading_of_flagged {dx dy : Expr} (flagged : ∃ e ∈ [dx, dy], Stmt.directionErrors e ≠ [])
    (c : Command) (throws : Nat) : ∃ f, scene.heading c dx dy throws = .error f := by
  rw [heading]
  cases first : scene.sign c 1 dx throws with
  | error f => exact ⟨f, bind_of_error first⟩
  | ok r =>
      rw [bind_of_ok first]
      obtain ⟨e, member, flagged⟩ := flagged
      simp only [List.mem_cons, List.not_mem_nil, or_false] at member
      obtain rfl | rfl := member
      · obtain ⟨f, refused⟩ := scene.sign_of_flagged flagged c 1
        rw [refused] at first
        cases first
      · obtain ⟨f, refused⟩ := scene.sign_of_flagged flagged c 2
        exact ⟨f, bind_of_error (refused r.2)⟩

/-- Reading an argument fails for no direction, whatever is asked of it. -/
theorem gives_notDirection (scene : Scene) (e : Expr) (t : Ty) :
    scene.Gives (fun f => f.what.isDirection = false) t e := by
  refine ((Expr.eval_aloof scene e).allow fun f =>
    RuntimeError.isDirection_of_isInner).imp fun _ _ => Or.inr fun role => ?_
  cases t <;> rfl

end Scene

/-! ### Statements that draw in a direction -/

/-- If the failure is that a direction is refused, then at one of the two components, which is no
constant or was refused before the run. -/
def Blames (dx dy : Expr) (f : Failure) : Prop :=
  ∀ n, f.what = .badDirection n →
    ∃ e ∈ [dx, dy], f.loc = e.loc ∧ (e.constantInt? = none ∨ Stmt.directionErrors e ≠ [])

/-- No other failure blames a direction. -/
theorem blames_of_notDirection (dx dy : Expr) {f : Failure} (other : f.what.isDirection = false) :
    Blames dx dy f := by
  intro n what
  rw [what] at other
  cases other

/-- A component of a direction is refused only if it is to blame. -/
theorem Scene.sign_blames {scene : Scene} {dx dy e : Expr} (member : e ∈ [dx, dy]) (c : Command)
    (i : Nat) : Ensures (fun _ => True) (Blames dx dy) (scene.sign c i e) := by
  have gives : scene.Gives (Blames dx dy) .intOrBool e :=
    ((scene.gives_notDirection e .intOrBool).allow fun f => blames_of_notDirection dx dy).imp
      fun v typed => typed.imp_right fun wrong role => blames_of_notDirection dx dy (wrong role)
  cases constant : e.constantInt? with
  | none =>
      exact sign_ensures c i gives fun n m _ => ⟨e, member, rfl, Or.inl constant⟩
  | some v =>
      obtain ⟨-, σ, -, found⟩ | ⟨flagged, -⟩ := scene.sign_of_constant constant c i
      · rw [found]
        exact Ensures.pure trivial
      · refine sign_ensures c i gives fun n m _ => ⟨e, member, rfl, Or.inr ?_⟩
        rw [flagged]
        exact List.cons_ne_nil _ _

namespace Stmt

/-- A statement that draws in a direction reads the direction first, and nothing behind that refuses
a direction. -/
theorem act_directed {s : Stmt} {dx dy : Expr} (directed : s.kind.directions = [dx, dy])
    (scene : Scene) :
    ∃ (c : Command) (figure : Heading → Eval Figure),
      s.act scene = scene.directed c dx dy figure ∧
        ∀ h, Ensures (fun _ => True) (fun f => f.what.isDirection = false) (figure h) := by
  have shape (loc : Location) (e : RuntimeError) (h : e.isShape = true) :
      (⟨loc, e⟩ : Failure).what.isDirection = false :=
    RuntimeError.isDirection_of_isShape h
  have gives (e : Expr) := scene.gives_notDirection e .intOrBool
  obtain ⟨loc, kind⟩ := s
  cases kind with
  | drawLine dx' dy' d =>
      cases directed
      refine ⟨_, _, rfl, fun h => ?_⟩
      exact (Scene.line_ensures (shape loc) h (gives d)).imp fun _ _ => trivial
  | drawCircle dx' dy' r =>
      cases directed
      refine ⟨_, _, rfl, fun h => ?_⟩
      exact (Scene.circle_ensures (shape loc) h (gives r)).imp fun _ _ => trivial
  | drawRectangle dx' dy' d w t =>
      cases directed
      refine ⟨_, _, rfl, fun h => ?_⟩
      exact (Scene.rectangle_ensures (shape loc) h fun e _ => gives e).imp fun _ _ => trivial
  | _ => cases directed

/-- **Whose fault it is if a direction is refused.** -/
theorem act_blames {s : Stmt} {dx dy : Expr} (directed : s.kind.directions = [dx, dy])
    (scene : Scene) : Ensures (fun _ => True) (Blames dx dy) (s.act scene) := by
  obtain ⟨c, figure, reads, later⟩ := act_directed directed scene
  rw [reads]
  refine Ensures.bind (P := fun _ => True) ?_ fun h _ => ?_
  · refine Ensures.bind (Scene.sign_blames (by simp) c 1) fun _ _ => ?_
    refine Ensures.bind (Scene.sign_blames (by simp) c 2) fun _ _ => ?_
    exact Ensures.pure trivial
  · refine Ensures.bind ((later h).allow fun f => blames_of_notDirection dx dy) fun _ _ => ?_
    exact Ensures.pure trivial

/-- With a direction that was refused before the run a statement is not read. -/
theorem act_of_flagged {s : Stmt} {dx dy : Expr} (directed : s.kind.directions = [dx, dy])
    (flagged : ∃ e ∈ [dx, dy], Stmt.directionErrors e ≠ []) (scene : Scene) (throws : Nat) :
    ∃ f, s.act scene throws = .error f := by
  obtain ⟨c, figure, reads, -⟩ := act_directed directed scene
  obtain ⟨f, refused⟩ := scene.heading_of_flagged flagged c throws
  exact ⟨f, by rw [reads]; exact bind_of_error refused⟩

end Stmt

namespace Machine

variable {dice : Nat → Nat} {m m' : Machine}

/-- A failure about a direction is one of reading. -/
theorem act_of_badDirection {s : Stmt} {f : Failure} {n : Integer}
    (failed : exec dice s m = .error (.failed f) m') (what : f.what = .badDirection n) :
    s.act (m.scene dice) m.throws = .error f := by
  obtain read | ⟨label, e, -, rfl, -⟩ := failure_of_exec failed
  · exact read
  · cases what

/-! ### Color literals -/

/-- Of a color literal, all that can be wrong before the run is that it names no color. -/
theorem check_colorLiteral {s : Stmt} {loc : Location} {text : String}
    (kind : s.kind = .color (.lit loc (.str text))) (types : Types) :
    (s.check types).2 = if (Color.parse? text).isSome then [] else [⟨loc, .badColor text⟩] := by
  rw [Stmt.check, kind]
  rfl

/-- A color literal that names no color is refused in every state. -/
theorem exec_colorLiteral {s : Stmt} {loc : Location} {text : String}
    (kind : s.kind = .color (.lit loc (.str text))) (invalid : Color.parse? text = none)
    (m : Machine) : exec dice s m = .error (.failed ⟨loc, .badColor text⟩) m := by
  have unnamed (scene : Scene) (role : Role) :
      scene.color role (.lit loc (.str text)) = Eval.fail loc (.badColor text) := by
    have named : Eval.string loc role (.str text) = pure text := rfl
    rw [Scene.color, Expr.eval, pure_bind]
    change (Eval.string loc role (.str text) >>= Eval.color loc) = _
    rw [named, pure_bind, Eval.color, invalid]
  refine exec_of_refused ?_
  rw [Stmt.act, kind]
  dsimp only
  rw [unnamed]
  rfl

/-! ### Agreement -/

/-- **The checks of constants agree with execution.** An expression with a constant value evaluates
to it in every scene. So a statement with a direction that is refused before the run fails in every
state and draws nothing: all but the count of the throws is as it was. If a direction is refused
during the run, then because of a component that is no constant, or one that was refused before the
run; never because of a constant that passed. And a color literal that is refused before the run is
refused in every state, with the same words and at the same place. -/
theorem constant_checks_agree (dice : Nat → Nat) :
    (∀ (e : Expr) (v : Integer), e.constantInt? = some v → ∀ (scene : Scene) (throws : Nat),
      ∃ w : Value, e.eval scene throws = .ok (w, throws) ∧ w.asInt? = some v) ∧
    (∀ (s : Stmt) (dx dy : Expr), s.kind.directions = [dx, dy] → ∀ m : Machine,
      ((∃ e ∈ [dx, dy], Stmt.directionErrors e ≠ []) →
        ∃ f throws, exec dice s m = .error (.failed f) { m with throws }) ∧
      ∀ f m' n, exec dice s m = .error (.failed f) m' → f.what = .badDirection n →
        ∃ e ∈ [dx, dy], f.loc = e.loc ∧
          (e.constantInt? = none ∨ Stmt.directionErrors e ≠ [])) ∧
    ∀ (s : Stmt) (loc : Location) (text : String), s.kind = .color (.lit loc (.str text)) →
      ∀ (types : Types), ∀ refusal ∈ (s.check types).2, ∀ m : Machine,
        ∃ f, exec dice s m = .error (.failed f) m ∧ f.loc = refusal.loc ∧
          f.what.message = refusal.what.message := by
  refine ⟨?_, ?_, ?_⟩
  · intro e v constant scene throws
    obtain ⟨w, reading, evaluates⟩ := Expr.eval_of_constantInt? constant
    exact ⟨w, by rw [evaluates]; rfl, reading⟩
  · intro s dx dy directed m
    constructor
    · intro flagged
      obtain ⟨f, refused⟩ := Stmt.act_of_flagged directed flagged (m.scene dice) m.throws
      exact ⟨f, m.throws, exec_of_refused refused⟩
    · intro f m' n failed what
      exact (Stmt.act_blames directed (m.scene dice)).of_eq_error
        (act_of_badDirection failed what) n what
  · intro s loc text kind types refusal member m
    rw [check_colorLiteral kind] at member
    split at member
    · cases member
    · next invalid =>
      obtain rfl := List.mem_singleton.1 member
      have none := Option.not_isSome_iff_eq_none.1 invalid
      exact ⟨_, exec_colorLiteral kind none m, rfl, rfl⟩

/-- The constant `-(-2)`. -/
def steep : Expr :=
  .unary ⟨2, 15⟩ .neg (.group ⟨2, 16⟩
    (.unary ⟨2, 17⟩ .neg (.lit ⟨2, 18⟩ (.int (.saturate 2)))))

/-- The statement `DrawCircle(x, -(-2), 3)`. -/
def steepCircle : Stmt :=
  ⟨⟨2, 1⟩, .drawCircle (.var ⟨2, 12⟩ "x") steep
    (.lit ⟨2, 22⟩ (.int (.saturate 3)))⟩

/-- The statement `Color("reddish")`. -/
def reddish : Stmt :=
  ⟨⟨3, 1⟩, .color (.lit ⟨3, 7⟩ (.str "reddish"))⟩

/-- A machine with a canvas of nine pixels, on which no variable has a value. -/
def ninePixels : Machine where
  canvas := .blank 3 3
  reporter := { pace := {} }

/-- A direction out of range behind a variable without a value: the circle is not drawn. And a color
that does not exist. -/
theorem steepCircle_and_reddish_fail :
    (∃ f throws, exec (fun _ => 0) steepCircle ninePixels =
        .error (.failed f) { ninePixels with throws }) ∧
      ∃ f, exec (fun _ => 0) reddish ninePixels = .error (.failed f) ninePixels ∧
        f.loc = ⟨3, 7⟩ ∧ f.what.message = "Invalid color 'reddish'." := by
  obtain ⟨-, directions, colors⟩ := constant_checks_agree fun _ => 0
  constructor
  · have flagged : Stmt.directionErrors steep ≠ [] := by decide
    exact (directions steepCircle _ steep rfl ninePixels).1 ⟨steep, by simp, flagged⟩
  · have refused : ⟨⟨3, 7⟩, .badColor "reddish"⟩ ∈ (reddish.check .empty).2 := by decide
    exact colors reddish _ _ rfl .empty _ refused ninePixels

end Machine

end PenScript
