import PenScript.Proofs.Deed

/-!
# What steers a run

The place in the program, the labels and the limit are the flow of a run. Only the loop and the
jumps deal with it. All else is *aloof*: its failures are not about labels or the limit, and it
leaves the flow as it is.

## Main definitions

* `RuntimeError.isFlow` — the errors about the course of a run;
* `RuntimeError.isInner` — the errors of expressions;
* `Eval.Aloof` — computations that fail as expressions do;
* `Machine.Unseen` — changes of a machine that no statement sees.

## Main results

* `Expr.eval_aloof`: no expression fails about the flow, or about what only statements do;
* `Stmt.act_aloof`: no statement fails about the flow while it is read;
* `Machine.flow_of_straight`, `Machine.flow_of_goTo`: the flow behind a statement;
* `Machine.fault_of_exec`: which statements fail about the flow;
* `Machine.Unseen.exec`: a statement does the same on two machines that it cannot tell apart.
-/

namespace PenScript

/-- The errors about the course of a run. -/
def RuntimeError.isFlow : RuntimeError → Bool
  | labelMissing _ | labelAgain _ | limitReached _ => true
  | _ => false

/-- The errors of expressions. All others are raised by statements or by the course of a run. -/
def RuntimeError.isInner : RuntimeError → Bool
  | outside .. | badDirection _ | negativeDistance .. | noDirection | badRadius _ | badExtent ..
  | penOverflow | labelMissing _ | labelAgain _ | limitReached _ => false
  | _ => true

/-- No error of an expression is about the course of a run. -/
theorem RuntimeError.isFlow_of_isInner {e : RuntimeError} (inner : e.isInner = true) :
    e.isFlow = false := by
  cases e with
  | labelMissing | labelAgain | limitReached => cases inner
  | _ => rfl

/-- No error of a statement that is read is about the course of a run. -/
theorem RuntimeError.isFlow_of_isOwn {e : RuntimeError} (own : e.isOwn = true) :
    e.isFlow = false := by
  cases e with
  | labelMissing | labelAgain | limitReached => cases own
  | _ => rfl

/-! ### Expressions -/

namespace Eval

variable {α β : Type}

/-- A computation whose failures are those of expressions; none of them is about the flow. -/
def Aloof (x : Eval α) : Prop :=
  Ensures (fun _ => True) (fun f => f.what.isInner = true) x

namespace Aloof

/-- A computation that only answers. -/
theorem pure (a : α) : Aloof (Pure.pure a) :=
  Ensures.pure trivial

/-- A computation that fails as expressions do. -/
theorem fail (loc : Location) {e : RuntimeError} (h : e.isInner = true) :
    Aloof (Eval.fail loc e : Eval α) :=
  Ensures.fail h

/-- Two computations one after the other. -/
theorem bind {x : Eval α} {f : α → Eval β} (first : Aloof x) (next : ∀ a, Aloof (f a)) :
    Aloof (x >>= f) :=
  Ensures.bind first fun a _ => next a

end Aloof

/-- Arithmetic fails with an overflow only. -/
theorem exact_aloof (loc : Location) (symbol : String) (n : Option Integer) :
    Aloof (exact loc symbol n) := by
  cases n with
  | some n => exact Aloof.pure _
  | none => exact Aloof.fail loc rfl

section Reading

variable (loc : Location) (role : Role) (v : Value)

/-- Reading an integer fails for its type only. -/
theorem integer_aloof : Aloof (integer loc role v) := by
  rw [integer]
  split
  · exact Aloof.pure _
  · exact Aloof.fail loc rfl

/-- Reading a boolean fails for its type only. -/
theorem truth_aloof : Aloof (truth loc role v) := by
  rw [truth]
  split
  · exact Aloof.pure _
  · exact Aloof.fail loc rfl

/-- Reading a string fails for its type only. -/
theorem string_aloof : Aloof (string loc role v) := by
  rw [string]
  split
  · exact Aloof.pure _
  · exact Aloof.fail loc rfl

/-- Reading a color fails for its name only. -/
theorem color_aloof (s : String) : Aloof (color loc s) := by
  rw [color]
  split
  · exact Aloof.pure _
  · exact Aloof.fail loc rfl

end Reading

end Eval

open Eval

/-- Repeating a text fails for the number of times only. -/
theorem repeatText_aloof (loc : Location) (s : String) (n : Integer) :
    Aloof (repeatText loc s n) := by
  rw [repeatText]
  split
  · exact Aloof.fail loc rfl
  · split
    · exact Aloof.pure _
    · exact Aloof.fail loc rfl

namespace BinaryOp

variable (op : BinaryOp) (loc rhsLoc : Location)

/-- Operators on integers fail as expressions do. -/
theorem applyIntegers_aloof (a b : Integer) : Aloof (op.applyIntegers loc rhsLoc a b) := by
  have guarded {c : Prop} [Decidable c] {e : RuntimeError} (n : Option Integer)
      (he : e.isInner = true) :
      Aloof (if c then Eval.fail rhsLoc e else Eval.exact loc op.symbol n) := by
    split
    · exact Aloof.fail rhsLoc he
    · exact exact_aloof loc _ n
  cases op with
  | sub => exact exact_aloof loc _ _
  | div | mod | pow => exact guarded _ rfl
  | _ => exact Aloof.pure _

/-- Operators on values fail as expressions do. -/
theorem applyValues_aloof (v w : Value) : Aloof (op.applyValues loc rhsLoc v w) := by
  unfold applyValues
  split
  · split
    · exact exact_aloof loc _ _
    · exact Aloof.pure _
  · split
    · exact Aloof.fail rhsLoc rfl
    · exact Aloof.bind (integer_aloof _ _ _) fun n => repeatText_aloof loc _ n
    · exact Aloof.bind (integer_aloof _ _ _) fun n => repeatText_aloof loc _ n
    · refine Aloof.bind (integer_aloof _ _ _) fun a => ?_
      exact Aloof.bind (integer_aloof _ _ _) fun b => exact_aloof loc _ _
  · split
    · exact Aloof.pure _
    · exact Aloof.fail loc rfl

end BinaryOp

namespace Query

variable (q : Query) (loc : Location)

/-- Reading an argument of a query as an integer. -/
theorem integerArg_aloof (i : Nat) (v : Value) : Aloof (q.integerArg loc i v) :=
  integer_aloof loc _ v

/-- Reading an argument of a query as a color. -/
theorem colorArg_aloof (i : Nat) (v : Value) : Aloof (q.colorArg loc i v) :=
  Aloof.bind (string_aloof loc _ v) fun s => color_aloof loc s

/-- Queries fail as expressions do. -/
theorem ask_aloof (s : Scene) (args : List Value) : Aloof (q.ask s loc args) := by
  unfold ask
  split
  · exact Aloof.pure _
  · exact Aloof.pure _
  · exact Aloof.pure _
  · exact Aloof.bind (colorArg_aloof _ loc 1 _) fun _ => Aloof.pure _
  · exact Aloof.bind (integerArg_aloof _ loc 1 _) fun _ => Aloof.pure _
  · refine Aloof.bind (colorArg_aloof _ loc 1 _) fun _ => ?_
    refine Aloof.bind (integerArg_aloof _ loc 2 _) fun _ => ?_
    exact Aloof.bind (integerArg_aloof _ loc 3 _) fun _ => Aloof.pure _
  · refine Aloof.bind (colorArg_aloof _ loc 1 _) fun _ => ?_
    refine Aloof.bind (integerArg_aloof _ loc 2 _) fun _ => ?_
    refine Aloof.bind (integerArg_aloof _ loc 3 _) fun _ => ?_
    refine Aloof.bind (integerArg_aloof _ loc 4 _) fun _ => ?_
    exact Aloof.bind (integerArg_aloof _ loc 5 _) fun _ => Aloof.pure _
  · refine Aloof.bind (integerArg_aloof _ loc 1 _) fun lo => ?_
    refine Aloof.bind (integerArg_aloof _ loc 2 _) fun hi => ?_
    split
    · exact fun _ => trivial
    · exact Aloof.fail loc rfl
  · exact Aloof.fail loc rfl

end Query

namespace Expr

variable (s : Scene)

/-- Arguments fail as expressions do. -/
theorem evalAll_aloof {es : List Expr} (each : ∀ e ∈ es, Aloof (e.eval s)) :
    Aloof (evalAll s es) := by
  induction es with
  | nil =>
      rw [evalAll]
      exact Aloof.pure _
  | cons e es ih =>
      rw [evalAll]
      refine Aloof.bind (each e List.mem_cons_self) fun v => ?_
      exact Aloof.bind (ih fun e he => each e (List.mem_cons_of_mem _ he)) fun vs => Aloof.pure _

/-- An operation fails as its operands and its operator do. -/
theorem eval_binary_aloof {l : Location} {op : BinaryOp} {a b : Expr} (lhs : Aloof (a.eval s))
    (rhs : Aloof (b.eval s)) : Aloof ((binary l op a b).eval s) := by
  cases op with
  | and | or =>
      rw [eval]
      refine Aloof.bind lhs fun v => Aloof.bind (truth_aloof _ _ v) fun x => ?_
      split
      · exact Aloof.pure _
      · exact Aloof.bind rhs fun w => Aloof.bind (truth_aloof _ _ w) fun y => Aloof.pure _
  | add | mul | eq | ne =>
      rw [eval]
      exact Aloof.bind lhs fun v => Aloof.bind rhs fun w => BinaryOp.applyValues_aloof _ _ _ v w
  | sub | div | pow | mod | gt | ge | lt | le =>
      rw [eval]
      · refine Aloof.bind lhs fun v => Aloof.bind (integer_aloof _ _ v) fun x => ?_
        refine Aloof.bind rhs fun w => Aloof.bind (integer_aloof _ _ w) fun y => ?_
        exact BinaryOp.applyIntegers_aloof _ _ _ x y
      all_goals simp

/-- No expression fails about the flow, or about what only statements do. -/
theorem eval_aloof (e : Expr) : Aloof (e.eval s) := by
  induction e using inductionOn with
  | lit l v =>
      rw [eval]
      exact Aloof.pure _
  | var l x =>
      rw [eval]
      split
      · exact Aloof.pure _
      · exact Aloof.fail l rfl
  | call l f args ih =>
      rw [eval]
      split
      · exact Aloof.fail l rfl
      · exact Aloof.bind (evalAll_aloof s ih) fun vs => Query.ask_aloof _ l s vs
  | group l e ih =>
      rw [eval]
      exact ih
  | unary l op e ih =>
      cases op with
      | not =>
          rw [eval]
          exact Aloof.bind ih fun v => Aloof.bind (truth_aloof _ _ v) fun b => Aloof.pure _
      | neg =>
          rw [eval]
          exact Aloof.bind ih fun v => Aloof.bind (integer_aloof _ _ v) fun n => exact_aloof l _ _
  | binary l op a b iha ihb => exact eval_binary_aloof s iha ihb

end Expr

/-- No statement fails about the flow while it is read. -/
theorem Stmt.act_aloof (s : Stmt) (scene : Scene) :
    Ensures (Act.Suits s scene.pen) (fun f => f.what.isFlow = false) (s.act scene) := by
  have evaluates (e : Expr) :
      Ensures (fun _ => True) (fun f => f.what.isFlow = false) (e.eval scene) :=
    (Expr.eval_aloof scene e).allow fun _ => RuntimeError.isFlow_of_isInner
  refine act_ensures (fun _ _ => RuntimeError.isFlow_of_isOwn) (fun e _ => evaluates e) ?_
  intro t _ e _
  refine (evaluates e).imp fun _ _ => Or.inr fun role => ?_
  cases t <;> rfl

namespace Machine

variable {α : Type} {dice : Nat → Nat} {s : Stmt} {m m' : Machine}

/-- The same end on another machine. -/
def onMachine (g : Machine → Machine) :
    EStateM.Result Halt Machine α → EStateM.Result Halt Machine α
  | .ok a m => .ok a (g m)
  | .error halt m => .error halt (g m)

/-- A change of a machine that nothing sees which a statement does: the statement comes to the same
deed, and what painting and settling change is apart from it. -/
structure Unseen (g : Machine → Machine) : Prop where
  deed : ∀ dice s m, Machine.deed dice s (g m) = Machine.deed dice s m
  pen : ∀ m, (g m).pen = m.pen
  raised : ∀ m, (g m).reporter.signal.isRaised = m.reporter.signal.isRaised
  polled : ∀ m, (g m).polled = g m.polled
  laid : ∀ m p color, (g m).laid p color = g (m.laid p color)
  returns : ∀ m p color, ((g m).pixelReport p color).returns = (m.pixelReport p color).returns
  throws : ∀ m throws, { g m with throws } = g { m with throws }
  settles : ∀ m pen vars pc, { g m with pen, vars, flow := { (g m).flow with pc } } =
    g { m with pen, vars, flow := { m.flow with pc } }

namespace Unseen

variable {g : Machine → Machine}

/-- Painting does the same on both machines. -/
theorem paintPixels (unseen : Unseen g) (color : Color) (ps : List Point) (m : Machine) :
    paintPixels color ps (g m) = onMachine g (paintPixels color ps m) := by
  induction ps generalizing m with
  | nil => rfl
  | cons p ps ih =>
      rw [paintPixels_cons, paintPixels_cons, unseen.raised, unseen.polled, unseen.returns,
        unseen.laid]
      split
      · rfl
      · split
        · exact ih (m.polled.laid p color)
        · rfl

/-- A statement does the same on both machines. -/
theorem exec (unseen : Unseen g) (dice : Nat → Nat) (s : Stmt) (m : Machine) :
    exec dice s (g m) = onMachine g (exec dice s m) := by
  rw [exec_eq_act, exec_eq_act, unseen.deed]
  cases Machine.deed dice s m with
  | refuse throws f => exact congrArg (EStateM.Result.error _) (unseen.throws m throws)
  | perform throws coat pen vars pc =>
      have color : (g m).pen.color = m.pen.color := by rw [unseen.pen]
      have painted : Machine.paintPixels m.pen.color coat.pixels { g m with throws } =
          onMachine g (Machine.paintPixels m.pen.color coat.pixels { m with throws }) := by
        rw [← unseen.paintPixels]
        exact congrArg _ (unseen.throws m throws)
      rw [act_perform, act_perform, color, painted]
      cases Machine.paintPixels m.pen.color coat.pixels { m with throws } with
      | error halt m₁ => rfl
      | ok _ m₁ =>
          cases whole : coat.whole with
          | true => exact congrArg (EStateM.Result.ok ()) (unseen.settles m₁ pen vars pc)
          | false => rfl

end Unseen

/-- A statement that does not jump leaves the flow. -/
theorem flow_of_straight (straight : ¬Jumps dice s m) (done : exec dice s m = .ok () m') :
    m'.flow = m.flow := by
  obtain ⟨throws, m₁, painted, pen, vars, pc, rfl, stays, -⟩ := exec_eq_ok done
  obtain ⟨canvas, reporter, rfl⟩ := paintPixels_left painted
  rw [stays straight]

/-- A jump that was executed has gone to its label if its condition holds, and on if not. -/
theorem flow_of_goTo {label : String} {e : Expr} (kind : s.kind = .goTo label e)
    (done : exec dice s m = .ok () m') :
    (Jumps dice s m ∧ m.flow.jump label s.loc = .ok m'.flow) ∨
      (¬Jumps dice s m ∧ m'.flow = m.flow) := by
  by_cases jumps : Jumps dice s m
  · refine Or.inl ⟨jumps, ?_⟩
    obtain ⟨label', e', throws, kind', holds⟩ := jumps
    rw [kind] at kind'
    cases kind'
    have read := Stmt.act_eq_jump_iff.2 ⟨e, kind, holds⟩
    rw [exec_eq_act, deed, read] at done
    dsimp only [Deed.ofAct] at done
    rw [Flow.jump]
    cases target : m.flow.labels.get? label with
    | none =>
        rw [target] at done
        cases done
    | some i =>
        rw [target] at done
        cases done
        rfl
  · exact Or.inr ⟨jumps, flow_of_straight jumps done⟩

/-- A statement fails about the flow only if it is a jump and there is no label. -/
theorem fault_of_exec {f : Failure} (failed : exec dice s m = .error (.failed f) m') :
    f.what.isFlow = false ∨ ∃ label e, s.kind = .goTo label e ∧
      f = ⟨s.loc, .labelMissing label⟩ ∧ m.flow.labels.get? label = none :=
  (failure_of_exec failed).imp_left fun read => (s.act_aloof (m.scene dice)).of_eq_error read

end Machine

end PenScript
