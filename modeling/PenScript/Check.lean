import PenScript.Canvas
import PenScript.Diagnostic

/-!
# Checking programs

What can be said of a program before it runs: labels are declared once and jumps lead somewhere,
the first statement and only the first one places the pen, arguments have the types that their
commands ask for, constant directions are -1, 0 or 1, and color literals name a color.

Labels may be used before they are declared, so the declarations of the whole program are collected
first and the jumps are looked up afterwards. Of several declarations the first one counts. The type
of every expression is found together with the errors inside it. An expression whose type is not
known, because it is in error itself, raises no further errors around it.

## Main definitions

* `Label.collect` — the first declarations and the errors of the others;
* `Label.unresolved` — the jumps that lead nowhere;
* `Types` — the type of the last assignment to every variable;
* `Expr.infer` — the type of an expression and the errors inside it;
* `Stmt.check` — the errors of one statement and the types of the variables behind it;
* `Program.check` — all errors of a program, in the order of reporting.
-/

namespace PenScript

/-! ### Labels -/

namespace Label

/-- Where a label is declared. -/
structure Decl where
  index : Nat
  loc : Location
deriving DecidableEq, Repr

/-- The first declaration of every label of `stmts`, added to `table`, and the errors of the other
declarations. The first statement has index `i`. -/
def collectFrom (i : Nat) (table : Table Decl) : List Stmt → Table Decl × SemanticErrors
  | [] => (table, [])
  | s :: rest =>
    match s.kind with
    | .label name =>
      match table.get? name with
      | some first =>
        let (table', errors) := collectFrom (i + 1) table rest
        (table', ⟨s.loc, .labelAgain name first.loc⟩ :: errors)
      | none => collectFrom (i + 1) (table.insert name ⟨i, s.loc⟩) rest
    | _ => collectFrom (i + 1) table rest

/-- The first declaration of every label of a program, and the errors of the other ones. -/
def collect (p : Program) : Table Decl × SemanticErrors :=
  collectFrom 0 .empty p.stmts

/-- The error of a jump to a label that is not in `table`. -/
def unresolved? (table : Table Decl) (s : Stmt) : Option (Located SemanticError) :=
  match s.kind with
  | .goTo name _ => if (table.get? name).isSome then none else some ⟨s.loc, .labelMissing name⟩
  | _ => none

/-- The errors of all jumps that lead nowhere. -/
def unresolved (table : Table Decl) (p : Program) : SemanticErrors :=
  p.stmts.filterMap (unresolved? table)

end Label

/-! ### Types of expressions -/

/-- The type of the last assignment to every variable; `none` if what was assigned is in error. -/
abbrev Types := Table (Option Ty)

/-- The error of a type that is known and is not the expected one. -/
def expectType (loc : Location) (role : Role) (expected : Ty) : Option Ty → SemanticErrors
  | some found => if found = expected then [] else [⟨loc, .wrongType role expected found⟩]
  | none => []

namespace BinaryOp

/-- The type of an operator's result and the errors of applying it to operands of these types at
these places. Adding a string joins texts, and multiplying a string repeats it. -/
def infer (op : BinaryOp) (loc lhsLoc rhsLoc : Location) (lhs rhs : Option Ty) :
    Option Ty × SemanticErrors :=
  match op with
  | .add =>
    match lhs, rhs with
    | some .intOrBool, some .intOrBool => (some .intOrBool, [])
    | some _, some _ => (some .str, [])
    | _, _ => (none, [])
  | .mul =>
    match lhs, rhs with
    | some .intOrBool, some .intOrBool => (some .intOrBool, [])
    | some .str, some .str => (none, [⟨loc, .notApplicable .mul .str .str⟩])
    | some _, some _ => (some .str, [])
    | _, _ => (none, [])
  | .eq | .ne =>
    match lhs, rhs with
    | some a, some b =>
      if a = b then (some .intOrBool, []) else (none, [⟨loc, .differentTypes op a b⟩])
    | _, _ => (none, [])
  | _ =>
    (if lhs = some .intOrBool ∧ rhs = some .intOrBool then some .intOrBool else none,
      expectType lhsLoc (.left op) .intOrBool lhs ++ expectType rhsLoc (.right op) .intOrBool rhs)

end BinaryOp

namespace Query

/-- The errors of arguments at these places and with these types, the first one having number
`i`. -/
def argErrors (q : Query) (i : Nat) : List Ty → List (Location × Option Ty) → SemanticErrors
  | expected :: params, (loc, found) :: args =>
    expectType loc (.argument i q.name) expected found ++ q.argErrors (i + 1) params args
  | _, _ => []

end Query

/-- The type of a call of the function `name` and the errors of the call itself. -/
def inferCall (loc : Location) (name : String) (args : List (Location × Option Ty)) :
    Option Ty × SemanticErrors :=
  match Query.ofName? name with
  | none => (none, [⟨loc, .unknownFunction name⟩])
  | some q =>
    (some q.answer,
      if args.length = q.arity then q.argErrors 1 q.params args
      else [⟨loc, .wrongArity name q.arity args.length⟩])

namespace Expr

mutual

/-- The type of an expression, if it is known, and the errors inside it. -/
def infer (types : Types) : Expr → Option Ty × SemanticErrors
  | lit _ v => (some v.type, [])
  | var l x =>
    match types.get? x with
    | some t => (t, [])
    | none => (none, [⟨l, .undefinedVariable x⟩])
  | call l f args =>
    let (found, inner) := inferAll types args
    let (t, errors) := inferCall l f found
    (t, inner ++ errors)
  | group _ e => infer types e
  | unary _ op e =>
    let (t, inner) := infer types e
    (some .intOrBool, inner ++ expectType e.loc (.operand op) .intOrBool t)
  | binary l op a b =>
    let (ta, inA) := infer types a
    let (tb, inB) := infer types b
    let (t, errors) := op.infer l a.loc b.loc ta tb
    (t, inA ++ inB ++ errors)

/-- The places and types of several expressions, and the errors inside them. -/
def inferAll (types : Types) : List Expr → List (Location × Option Ty) × SemanticErrors
  | [] => ([], [])
  | e :: es =>
    let (t, inner) := infer types e
    let (ts, errors) := inferAll types es
    ((e.loc, t) :: ts, inner ++ errors)

end

end Expr

/-! ### Statements and programs -/

namespace Stmt

/-- The errors of arguments of a command that all have to be of type `expected`, the first one
having number `i`. -/
def argErrors (types : Types) (c : Command) (expected : Ty) (i : Nat) : List Expr → SemanticErrors
  | [] => []
  | e :: es =>
    let (t, inner) := e.infer types
    inner ++ expectType e.loc (.argument i c.name) expected t
      ++ argErrors types c expected (i + 1) es

/-- The error of a constant that is no direction. What is no constant is looked at when it is
evaluated. -/
def directionErrors (e : Expr) : SemanticErrors :=
  match e.constantInt? with
  | some v => if -1 ≤ v.val ∧ v.val ≤ 1 then [] else [⟨e.loc, .badDirection v⟩]
  | none => []

/-- The error of a string literal that names no color. -/
def colorErrors : Expr → SemanticErrors
  | .lit loc (.str s) => if (Color.parse? s).isSome then [] else [⟨loc, .badColor s⟩]
  | _ => []

/-- The errors of a command that draws in a direction. -/
def drawErrors (types : Types) (c : Command) (dx dy : Expr) (others : List Expr) :
    SemanticErrors :=
  directionErrors dx ++ directionErrors dy ++ argErrors types c .intOrBool 1 (dx :: dy :: others)

/-- The types of the variables behind a statement, and the errors of the statement. -/
def check (types : Types) (s : Stmt) : Types × SemanticErrors :=
  match s.kind with
  | .spawn x y => (types, argErrors types .spawn .intOrBool 1 [x, y])
  | .respawn x y => (types, argErrors types .respawn .intOrBool 1 [x, y])
  | .color e => (types, argErrors types .color .str 1 [e] ++ colorErrors e)
  | .size e => (types, argErrors types .size .intOrBool 1 [e])
  | .drawLine dx dy d => (types, drawErrors types .drawLine dx dy [d])
  | .drawCircle dx dy r => (types, drawErrors types .drawCircle dx dy [r])
  | .drawRectangle dx dy d w h => (types, drawErrors types .drawRectangle dx dy [d, w, h])
  | .fill => (types, [])
  | .filling e => (types, argErrors types .filling .intOrBool 1 [e])
  | .assign x e =>
    let (t, errors) := e.infer types
    (types.insert x t, errors)
  | .label _ => (types, [])
  | .goTo name e =>
    let (t, errors) := e.infer types
    (types, errors ++ expectType e.loc (.condition name) .intOrBool t)
  | .expr e => (types, (e.infer types).2)

/-- The errors of statements in order, each one checked with the types that are left by those
before it. -/
def checkAll (types : Types) : List Stmt → SemanticErrors
  | [] => []
  | s :: rest =>
    let (types', errors) := s.check types
    errors ++ checkAll types' rest

/-- As `checkAll`, for the statements behind a first one that places the pen: none of them may do
that again. -/
def checkBehindSpawn (types : Types) : List Stmt → SemanticErrors
  | [] => []
  | s :: rest =>
    let (types', errors) := s.check types
    (if s.kind.isSpawn then [⟨s.loc, .spawnAgain⟩] else []) ++ errors
      ++ checkBehindSpawn types' rest

end Stmt

namespace Program

/-- The errors of the first statement and of all statements in order. -/
def checkStmts (p : Program) : SemanticErrors :=
  match p.stmts with
  | [] => [⟨p.loc, .emptyProgram⟩]
  | first :: rest =>
    if first.kind.isSpawn then
      let (types, errors) := first.check .empty
      errors ++ Stmt.checkBehindSpawn types rest
    else ⟨first.loc, .spawnMissing⟩ :: Stmt.checkAll .empty (first :: rest)

/-- All errors of a program, in the order of reporting. -/
def check (p : Program) : SemanticErrors :=
  let (labels, errors) := Label.collect p
  errors ++ Label.unresolved labels p ++ p.checkStmts

end Program

end PenScript
