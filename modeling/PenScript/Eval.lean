import PenScript.Diagnostic
import PenScript.Shape

/-!
# Evaluating expressions

Expressions are evaluated from left to right in a scene: the canvas, the pen and the variables. The
first failure ends the evaluation. Random integers come from a sequence of dice throws, so that a
run is a function of it; evaluating counts how many throws were used.

## Main definitions

* `Scene` — what an expression can see;
* `BinaryOp.applyValues`, `BinaryOp.applyIntegers` — operators on evaluated operands;
* `Query.ask` — built-in functions on evaluated arguments;
* `Expr.eval` — the value of an expression.
-/

namespace PenScript

/-- What an expression can see: the canvas, the pen, the values of the variables, and the random
bits of every throw of the dice. -/
structure Scene where
  canvas : Canvas
  pen : Pen
  vars : Table Value
  dice : Nat → Nat

/-- A computation that may fail and that counts the throws of the dice. -/
abbrev Eval := StateT Nat (Except Failure)

namespace Eval

/-- Fails at a place. -/
def fail {α : Type} (loc : Location) (e : RuntimeError) : Eval α :=
  throw ⟨loc, e⟩

/-- An exact result of the operator `symbol`, or a failure if there is none in range. -/
def exact (loc : Location) (symbol : String) : Option Integer → Eval Value
  | some n => pure (.int n)
  | none => fail loc (.overflow symbol)

/-- The integer reading of a value that is needed in some role. -/
def integer (loc : Location) (role : Role) (v : Value) : Eval Integer :=
  match v.asInt? with
  | some n => pure n
  | none => fail loc (.expectedInteger role)

/-- The boolean reading of a value that is needed in some role. -/
def truth (loc : Location) (role : Role) (v : Value) : Eval Bool :=
  match v.asBool? with
  | some b => pure b
  | none => fail loc (.expectedInteger role)

/-- The string that is needed in some role. -/
def string (loc : Location) (role : Role) (v : Value) : Eval String :=
  match v.asStr? with
  | some s => pure s
  | none => fail loc (.expectedString role)

/-- The color that a string names. -/
def color (loc : Location) (s : String) : Eval Color :=
  match Color.parse? s with
  | some c => pure c
  | none => fail loc (.badColor s)

end Eval

open Eval

/-! ### Operators -/

/-- The text `acc` followed by `n` copies of `s`. -/
def appendCopies (s : String) : (n : Nat) → (acc : String) → String
  | 0, acc => acc
  | n + 1, acc => appendCopies s n (acc ++ s)

/-- A string repeated some times. -/
def repeatText (loc : Location) (s : String) (n : Integer) : Eval Value :=
  if n.val < 0 then fail loc (.negativeRepeat n)
  else if s.utf8ByteSize * n.val.toNat ≤ maxTextSize then
    pure (.str (if s = "" then "" else appendCopies s n.val.toNat ""))
  else fail loc .longRepeat

namespace BinaryOp

/-- The operators that work on all types, applied to two values: `+` and `*` join and repeat texts,
and `==` and `!=` compare values of one type. The places are those of the whole expression and of
the right operand. -/
def applyValues (op : BinaryOp) (loc rhsLoc : Location) (v w : Value) : Eval Value :=
  match op with
  | .add =>
    match v.asInt?, w.asInt? with
    | some a, some b => exact loc op.symbol (a.add? b)
    | _, _ => pure (.str (v.text ++ w.text))
  | .mul =>
    match v, w with
    | .str _, .str _ => fail rhsLoc (.expectedInteger (.right op))
    | .str s, w => do repeatText loc s (← integer rhsLoc (.right op) w)
    | v, .str s => do repeatText loc s (← integer loc (.left op) v)
    | v, w => do
      let a ← integer loc (.left op) v
      let b ← integer rhsLoc (.right op) w
      exact loc op.symbol (a.mul? b)
  | _ =>
    if v.type = w.type then pure (.bool (v.same w == (op == .eq)))
    else fail loc (.incomparable op v.type w.type)

/-- The operators that work on integers, applied to two of them. -/
def applyIntegers (op : BinaryOp) (loc rhsLoc : Location) (a b : Integer) : Eval Value :=
  match op with
  | .sub => exact loc op.symbol (a.sub? b)
  | .div => if b.val = 0 then fail rhsLoc .divisionByZero else exact loc op.symbol (a.div? b)
  | .mod => if b.val = 0 then fail rhsLoc .moduloByZero else exact loc op.symbol (a.mod? b)
  | .pow =>
    if b.val < 0 then fail rhsLoc (.negativeExponent b)
    else exact loc op.symbol (a.pow? b.val.toNat)
  | .gt => pure (.bool (a.val > b.val))
  | .ge => pure (.bool (a.val ≥ b.val))
  | .lt => pure (.bool (a.val < b.val))
  | _ => pure (.bool (a.val ≤ b.val))

end BinaryOp

/-! ### Built-in functions -/

namespace Query

/-- The integer given as argument `i`. -/
def integerArg (q : Query) (loc : Location) (i : Nat) (v : Value) : Eval Integer :=
  integer loc (.argument i q.name) v

/-- The color named by argument `i`. -/
def colorArg (q : Query) (loc : Location) (i : Nat) (v : Value) : Eval Color := do
  color loc (← string loc (.argument i q.name) v)

/-- The answer of a built-in function that is called at `loc`. -/
def ask (q : Query) (s : Scene) (loc : Location) (args : List Value) : Eval Value :=
  match q, args with
  | .actualX, [] => pure (.int s.pen.x)
  | .actualY, [] => pure (.int s.pen.y)
  | .canvasSize, [] => pure (.int (.saturate s.canvas.width))
  | .brushColor, [c] => do
    let c ← q.colorArg loc 1 c
    return .bool (c = s.pen.color)
  | .brushSize, [n] => do
    let n ← q.integerArg loc 1 n
    return .bool (n.val = s.pen.brush.size)
  | .canvasColor, [c, x, y] => do
    let c ← q.colorArg loc 1 c
    let x ← q.integerArg loc 2 x
    let y ← q.integerArg loc 3 y
    let p : Point := ⟨x.val, y.val⟩
    return .bool (s.canvas.Contains p ∧ s.canvas.get p = c)
  | .colorCount, [c, x, y, w, h] => do
    let c ← q.colorArg loc 1 c
    let x ← q.integerArg loc 2 x
    let y ← q.integerArg loc 3 y
    let w ← q.integerArg loc 4 w
    let h ← q.integerArg loc 5 h
    return .int (.saturate (s.canvas.count c x.val y.val w.val h.val))
  | .randomInt, [lo, hi] => do
    let lo ← q.integerArg loc 1 lo
    let hi ← q.integerArg loc 2 hi
    if h : lo.val ≤ hi.val then
      let throws ← get
      set (throws + 1)
      return .int (Integer.draw lo hi h (s.dice throws))
    else fail loc (.emptyRange lo hi)
  | _, _ => fail loc (.wrongArity q.name q.arity args.length)

end Query

/-! ### Expressions -/

namespace Expr

mutual

/-- The value of an expression in a scene. `and` and `or` leave out a right operand that cannot
matter; `+`, `*`, `==` and `!=` evaluate both operands before they look at types, and all other
operators look at the left operand before they evaluate the right one. -/
def eval (s : Scene) : Expr → Eval Value
  | lit _ v => pure v
  | var l x =>
    match s.vars.get? x with
    | some v => pure v
    | none => fail l (.undefinedVariable x)
  | call l f args =>
    match Query.ofName? f with
    | none => fail l (.unknownFunction f)
    | some q => do q.ask s l (← evalAll s args)
  | group _ e => eval s e
  | unary _ .not e => do
    let b ← truth e.loc (.operand .not) (← eval s e)
    return .bool !b
  | unary l .neg e => do
    let n ← integer e.loc (.operand .neg) (← eval s e)
    exact l UnaryOp.neg.symbol n.neg?
  | binary l op a b =>
    match op with
    | .and | .or => do
      let x ← truth a.loc (.left op) (← eval s a)
      if x = (op == .or) then
        return .bool x
      let y ← truth b.loc (.right op) (← eval s b)
      return .bool y
    | .add | .mul | .eq | .ne => do
      let v ← eval s a
      let w ← eval s b
      op.applyValues l b.loc v w
    | _ => do
      let x ← integer a.loc (.left op) (← eval s a)
      let y ← integer b.loc (.right op) (← eval s b)
      op.applyIntegers l b.loc x y

/-- The values of several expressions, evaluated in order. -/
def evalAll (s : Scene) : List Expr → Eval (List Value)
  | [] => pure []
  | e :: es => do
    let v ← eval s e
    let vs ← evalAll s es
    return v :: vs

end

end Expr

end PenScript
