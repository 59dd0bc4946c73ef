import Mathlib.Algebra.Ring.Int.Defs
import PenScript.Eval

/-!
# Evaluating with unbounded integers

The integers of the language have 64 bits. Here expressions are evaluated as if they had no bound:
in the same order, with the same readings of values and leaving out the same operands, but a sum is
a sum. Division rounds toward zero, and the remainder belongs to it. Nothing is refused because it
is too large, so what remains are the failures that have another reason.

The evaluation keeps a record of every node that it has found a value for, in the order in which
they are found. A node whose value was computed from integers also says how, so that one can look up
where an evaluation within 64 bits has to stop: at the first node whose operation is refused.

## Main definitions

* `Unbounded.Value` — values with integers of any size;
* `Unbounded.Operation` — operations on integers, with their exact results;
* `Unbounded.Eval` — computations that fail, throw dice and keep a record;
* `Expr.evalUnbounded` — the value of an expression.
-/

namespace PenScript

/-- What is reported of a failure: its place and its wording. -/
abbrev Notice := Located String

/-- The notice of a failure. -/
def Failure.notice (f : Failure) : Notice :=
  ⟨f.loc, f.what.message⟩

/-! ### Values -/

namespace Unbounded

/-- A value with an integer of any size. -/
inductive Value where
  | int (n : Int)
  | bool (b : Bool)
  | str (s : String)
deriving DecidableEq

namespace Value

/-- The type of a value. -/
def type : Value → Ty
  | int _ | bool _ => .intOrBool
  | str _ => .str

/-- The integer reading. -/
def asInt? : Value → Option Int
  | int n => some n
  | bool b => some (if b then 1 else 0)
  | str _ => none

/-- The boolean reading. -/
def asBool? : Value → Option Bool
  | int n => some (n != 0)
  | bool b => some b
  | str _ => none

/-- The string itself. -/
def asStr? : Value → Option String
  | str s => some s
  | _ => none

/-- Whether two values are equal: by integer reading, or as strings. -/
def same (v w : Value) : Bool :=
  v.asInt? = w.asInt? && v.asStr? = w.asStr?

/-- The text that joining a value to a string inserts. -/
def text : Value → String
  | int n => toString n
  | bool b => if b then "true" else "false"
  | str s => s

/-- An integer is in range; there is nothing to say about other values. -/
def InRange : Value → Prop
  | int n => Integer.InRange n
  | _ => True

end Value

/-! ### Operations -/

/-- An operation on integers: a negation, a sum, a difference, a product, a quotient, which is
rounded toward zero, the remainder that belongs to it, or a power. -/
inductive Operation where
  | neg (a : Int)
  | add (a b : Int)
  | sub (a b : Int)
  | mul (a b : Int)
  | div (a b : Int)
  | mod (a b : Int)
  | pow (a : Int) (e : Nat)
deriving DecidableEq

namespace Operation

/-- The sign of the operator. -/
def symbol : Operation → String
  | neg _ => UnaryOp.neg.symbol
  | add .. => BinaryOp.add.symbol
  | sub .. => BinaryOp.sub.symbol
  | mul .. => BinaryOp.mul.symbol
  | div .. => BinaryOp.div.symbol
  | mod .. => BinaryOp.mod.symbol
  | pow .. => BinaryOp.pow.symbol

/-- The operands from left to right. -/
def operands : Operation → List Int
  | neg a => [a]
  | add a b | sub a b | mul a b | div a b | mod a b => [a, b]
  | pow a e => [a, e]

/-- The exact result. -/
def result : Operation → Int
  | neg a => -a
  | add a b => a + b
  | sub a b => a - b
  | mul a b => a * b
  | div a b => a.tdiv b
  | mod a b => a.tmod b
  | pow a e => a ^ e

/-- The operation cannot be carried out within 64 bits: the result is out of range, or it is the
remainder of the least integer by minus one. -/
def Refused (o : Operation) : Prop :=
  ¬Integer.InRange o.result ∨ o = mod (-9223372036854775808) (-1)

instance (o : Operation) : Decidable o.Refused :=
  inferInstanceAs (Decidable (_ ∨ _))

end Operation

/-! ### Records -/

/-- A node at `loc` that has been evaluated to a value, with the operation on integers that the
value is the result of, if it is one. -/
structure Event where
  loc : Location
  value : Value
  operation? : Option Operation := none

/-- Whether the value of a node is the result of an operation that is refused. -/
def Event.isRefused (e : Event) : Bool :=
  e.operation?.any fun o => o.Refused

/-- A computation that may fail, that counts the throws of the dice and that keeps a record of the
nodes it has evaluated. -/
def Eval (α : Type) : Type :=
  Nat → List Event × Except Notice (α × Nat)

namespace Eval

instance : Monad Eval where
  pure a throws := ([], .ok (a, throws))
  bind x f throws :=
    match x throws with
    | (events, .error notice) => (events, .error notice)
    | (events, .ok (a, throws')) => (events ++ (f a throws').1, (f a throws').2)

/-- Behind a failure nothing is evaluated. -/
theorem bind_of_error {α β : Type} {x : Eval α} {f : α → Eval β} {throws : Nat}
    {events : List Event} {notice : Notice} (h : x throws = (events, .error notice)) :
    (x >>= f) throws = (events, .error notice) := by
  simp only [bind, h]

/-- Behind a result the evaluation goes on, and its events are behind those before. -/
theorem bind_of_ok {α β : Type} {x : Eval α} {f : α → Eval β} {throws : Nat}
    {events : List Event} {r : α × Nat} (h : x throws = (events, .ok r)) :
    (x >>= f) throws = (events ++ (f r.1 r.2).1, (f r.1 r.2).2) := by
  simp only [bind, h]

/-- Fails at a place with a message. -/
def fail {α : Type} (loc : Location) (message : String) : Eval α :=
  fun _ => ([], .error ⟨loc, message⟩)

/-- The number of the next throw of the dice. -/
def throwDice : Eval Nat :=
  fun throws => ([], .ok (throws, throws + 1))

/-- The node at a place has a value. -/
def node (loc : Location) (v : Value) : Eval Value :=
  fun throws => ([⟨loc, v, none⟩], .ok (v, throws))

/-- The value of the node at a place is the result of an operation. -/
def compute (loc : Location) (o : Operation) : Eval Value :=
  fun throws => ([⟨loc, .int o.result, some o⟩], .ok (.int o.result, throws))

/-- The integer reading of a value that is needed in some role. -/
def integer (loc : Location) (role : Role) (v : Value) : Eval Int :=
  match v.asInt? with
  | some n => pure n
  | none => fail loc (RuntimeError.expectedInteger role).message

/-- The boolean reading of a value that is needed in some role. -/
def truth (loc : Location) (role : Role) (v : Value) : Eval Bool :=
  match v.asBool? with
  | some b => pure b
  | none => fail loc (RuntimeError.expectedInteger role).message

/-- The string that is needed in some role. -/
def string (loc : Location) (role : Role) (v : Value) : Eval String :=
  match v.asStr? with
  | some s => pure s
  | none => fail loc (RuntimeError.expectedString role).message

/-- The color that a string names. -/
def color (loc : Location) (s : String) : Eval Color :=
  match Color.parse? s with
  | some c => pure c
  | none => fail loc (RuntimeError.badColor s).message

end Eval

end Unbounded

/-- A value as one with an integer of any size. -/
def Value.unbounded : Value → Unbounded.Value
  | int n => .int n.val
  | bool b => .bool b
  | str s => .str s

open Unbounded.Eval

/-! ### Operators -/

/-- A string repeated some times. -/
def repeatUnbounded (loc : Location) (s : String) (n : Int) : Unbounded.Eval Unbounded.Value :=
  if n < 0 then
    fail loc ("Cannot repeat a string a negative number of times (" ++ toString n ++ ").")
  else if s.utf8ByteSize * n.toNat ≤ maxTextSize then
    node loc (.str (if s = "" then "" else appendCopies s n.toNat ""))
  else fail loc RuntimeError.longRepeat.message

namespace BinaryOp

/-- The operators that work on all types, applied to two values. -/
def applyUnbounded (op : BinaryOp) (loc rhsLoc : Location) (v w : Unbounded.Value) :
    Unbounded.Eval Unbounded.Value :=
  match op with
  | .add =>
    match v.asInt?, w.asInt? with
    | some a, some b => compute loc (.add a b)
    | _, _ => node loc (.str (v.text ++ w.text))
  | .mul =>
    match v, w with
    | .str _, .str _ => fail rhsLoc (RuntimeError.expectedInteger (.right op)).message
    | .str s, w => do repeatUnbounded loc s (← integer rhsLoc (.right op) w)
    | v, .str s => do repeatUnbounded loc s (← integer loc (.left op) v)
    | v, w => do
      let a ← integer loc (.left op) v
      let b ← integer rhsLoc (.right op) w
      compute loc (.mul a b)
  | _ =>
    if v.type = w.type then node loc (.bool (v.same w == (op == .eq)))
    else fail loc (RuntimeError.incomparable op v.type w.type).message

/-- The operators that work on integers, applied to two of them. -/
def calculateUnbounded (op : BinaryOp) (loc rhsLoc : Location) (a b : Int) :
    Unbounded.Eval Unbounded.Value :=
  match op with
  | .sub => compute loc (.sub a b)
  | .div =>
    if b = 0 then fail rhsLoc RuntimeError.divisionByZero.message else compute loc (.div a b)
  | .mod =>
    if b = 0 then fail rhsLoc RuntimeError.moduloByZero.message else compute loc (.mod a b)
  | .pow =>
    if b < 0 then fail rhsLoc ("Negative exponent " ++ toString b ++ " in '**'.")
    else compute loc (.pow a b.toNat)
  | .gt => node loc (.bool (a > b))
  | .ge => node loc (.bool (a ≥ b))
  | .lt => node loc (.bool (a < b))
  | _ => node loc (.bool (a ≤ b))

end BinaryOp

/-! ### Built-in functions -/

/-- The answer of a built-in function that is called at `loc`. -/
def Query.askUnbounded (q : Query) (s : Scene) (loc : Location) (args : List Unbounded.Value) :
    Unbounded.Eval Unbounded.Value :=
  match q, args with
  | .actualX, [] => node loc (.int s.pen.x.val)
  | .actualY, [] => node loc (.int s.pen.y.val)
  | .canvasSize, [] => node loc (.int (Integer.saturate s.canvas.width).val)
  | .brushColor, [c] => do
    let c ← colorArg 1 c
    node loc (.bool (c = s.pen.color))
  | .brushSize, [n] => do
    let n ← integerArg 1 n
    node loc (.bool (n = s.pen.brush.size))
  | .canvasColor, [c, x, y] => do
    let c ← colorArg 1 c
    let x ← integerArg 2 x
    let y ← integerArg 3 y
    node loc (.bool (s.canvas.Contains ⟨x, y⟩ ∧ s.canvas.get ⟨x, y⟩ = c))
  | .colorCount, [c, x, y, w, h] => do
    let c ← colorArg 1 c
    let x ← integerArg 2 x
    let y ← integerArg 3 y
    let w ← integerArg 4 w
    let h ← integerArg 5 h
    node loc (.int (Integer.saturate (s.canvas.count c x y w h)).val)
  | .randomInt, [lo, hi] => do
    let lo ← integerArg 1 lo
    let hi ← integerArg 2 hi
    if lo ≤ hi then
      let throws ← throwDice
      node loc (.int (lo + s.dice throws % (hi - lo + 1)))
    else
      fail loc ("'GetRandomInt' needs min <= max, found min = " ++ toString lo ++ " and max = "
        ++ toString hi ++ ".")
  | _, _ => fail loc (RuntimeError.wrongArity q.name q.arity args.length).message
where
  /-- The integer given as argument `i`. -/
  integerArg (i : Nat) (v : Unbounded.Value) : Unbounded.Eval Int :=
    integer loc (.argument i q.name) v
  /-- The color named by argument `i`. -/
  colorArg (i : Nat) (v : Unbounded.Value) : Unbounded.Eval Color := do
    color loc (← string loc (.argument i q.name) v)

/-! ### Expressions -/

namespace Expr

mutual

/-- The value of an expression in a scene. -/
def evalUnbounded (s : Scene) : Expr → Unbounded.Eval Unbounded.Value
  | lit l v => node l v.unbounded
  | var l x =>
    match s.vars.get? x with
    | some v => node l v.unbounded
    | none => fail l (RuntimeError.undefinedVariable x).message
  | call l f args =>
    match Query.ofName? f with
    | none => fail l (RuntimeError.unknownFunction f).message
    | some q => do q.askUnbounded s l (← evalAllUnbounded s args)
  | group l e => do node l (← evalUnbounded s e)
  | unary l .not e => do
    let b ← truth e.loc (.operand .not) (← evalUnbounded s e)
    node l (.bool !b)
  | unary l .neg e => do
    let n ← integer e.loc (.operand .neg) (← evalUnbounded s e)
    compute l (.neg n)
  | binary l op a b =>
    match op with
    | .and | .or => do
      let x ← truth a.loc (.left op) (← evalUnbounded s a)
      if x = (op == .or) then
        node l (.bool x)
      else
        let y ← truth b.loc (.right op) (← evalUnbounded s b)
        node l (.bool y)
    | .add | .mul | .eq | .ne => do
      let v ← evalUnbounded s a
      let w ← evalUnbounded s b
      op.applyUnbounded l b.loc v w
    | _ => do
      let x ← integer a.loc (.left op) (← evalUnbounded s a)
      let y ← integer b.loc (.right op) (← evalUnbounded s b)
      op.calculateUnbounded l b.loc x y

/-- The values of several expressions, evaluated in order. -/
def evalAllUnbounded (s : Scene) : List Expr → Unbounded.Eval (List Unbounded.Value)
  | [] => pure []
  | e :: es => do
    let v ← evalUnbounded s e
    let vs ← evalAllUnbounded s es
    return v :: vs

end

end Expr

end PenScript
