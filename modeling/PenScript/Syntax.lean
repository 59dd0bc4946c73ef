import PenScript.Text
import PenScript.Value

/-!
# The syntax of programs

The closed sets of words and signs that the grammar gives a meaning to: unary and binary operators
with their binding powers, the commands that start a statement, and the built-in functions, the
queries. A query asks the canvas, the pen or the dice; it has a fixed list of parameter types and
always answers an integer or a boolean.

Every node of an expression carries the place where it starts. Brackets are kept as nodes of their
own, so a tree says how it was written. A program is a flat list of statements, one a line. Labels
are statements as well; jumping to a label continues behind it.

## Main definitions

* `BinaryOp.power` — how tightly an operator binds to its left and to its right;
* `Command.arity`, `Query.params` — what commands and queries take;
* `Expr.preorder`, `Program.preorder` — a node before what is below it, from left to right;
* `Expr.constantInt?` — the value of literals under brackets and minus signs;
* `Stmt.args` — the argument expressions of a statement in the order they are written;
* `Stmt.isDrawing` — whether a statement writes pixels;
* `Expr.text`, `Stmt.text`, `Program.text` — the written form as S-expressions.
-/

namespace PenScript

/-! ### Operators and commands -/

/-- Operators in front of one operand. -/
inductive UnaryOp where
  | not
  | neg
deriving DecidableEq, Repr

/-- The sign of a unary operator. -/
def UnaryOp.symbol : UnaryOp → String
  | not => "!"
  | neg => "-"

/-- Operators between two operands. -/
inductive BinaryOp where
  | add
  | sub
  | mul
  | div
  | pow
  | mod
  | eq
  | ne
  | gt
  | ge
  | lt
  | le
  | and
  | or
deriving DecidableEq, Repr

namespace BinaryOp

/-- The sign of a binary operator. -/
def symbol : BinaryOp → String
  | add => "+"
  | sub => "-"
  | mul => "*"
  | div => "/"
  | pow => "**"
  | mod => "%"
  | eq => "=="
  | ne => "!="
  | gt => ">"
  | ge => ">="
  | lt => "<"
  | le => "<="
  | and => "and"
  | or => "or"

/-- How tightly an operator binds to its left and to its right operand. Conjunction binds the
loosest and power the tightest; only power leans to the right. -/
def power : BinaryOp → Nat × Nat
  | and => (1, 2)
  | or => (3, 4)
  | eq | ne => (5, 6)
  | gt | ge | lt | le => (7, 8)
  | add | sub => (9, 10)
  | mul | div | mod => (11, 12)
  | pow => (14, 13)

/-- A bound that no binary operator reaches: an operand that must bind at least this tightly holds
no binary operator outside of brackets. -/
def unreachedPower : Nat := 15

/-- No binary operator reaches the bound. -/
theorem power_fst_lt (op : BinaryOp) : op.power.1 < unreachedPower := by
  cases op <;> decide

end BinaryOp

/-- The words that start a command. -/
inductive Command where
  | spawn
  | respawn
  | color
  | size
  | drawLine
  | drawCircle
  | drawRectangle
  | fill
  | filling
  | goTo
deriving DecidableEq, Repr

namespace Command

/-- All commands. -/
def all : List Command :=
  [spawn, respawn, color, size, drawLine, drawCircle, drawRectangle, fill, filling, goTo]

/-- The word of a command. -/
def name : Command → String
  | spawn => "Spawn"
  | respawn => "Respawn"
  | color => "Color"
  | size => "Size"
  | drawLine => "DrawLine"
  | drawCircle => "DrawCircle"
  | drawRectangle => "DrawRectangle"
  | fill => "Fill"
  | filling => "Filling"
  | goTo => "GoTo"

/-- The number of arguments in the brackets behind the word. -/
def arity : Command → Nat
  | spawn | respawn => 2
  | color | size | filling | goTo => 1
  | drawLine | drawCircle => 3
  | drawRectangle => 5
  | fill => 0

end Command

/-! ### Queries -/

/-- The built-in functions. -/
inductive Query where
  | actualX
  | actualY
  | canvasSize
  | brushColor
  | brushSize
  | canvasColor
  | colorCount
  | randomInt
deriving DecidableEq, Repr

namespace Query

/-- All queries. -/
def all : List Query :=
  [actualX, actualY, canvasSize, brushColor, brushSize, canvasColor, colorCount, randomInt]

/-- The name under which programs call a query. -/
def name : Query → String
  | actualX => "GetActualX"
  | actualY => "GetActualY"
  | canvasSize => "GetCanvasSize"
  | brushColor => "IsBrushColor"
  | brushSize => "IsBrushSize"
  | canvasColor => "IsCanvasColor"
  | colorCount => "GetColorCount"
  | randomInt => "GetRandomInt"

/-- The query of a given name; case matters. -/
def ofName? (s : String) : Option Query :=
  all.find? fun q => q.name = s

/-- The parameter types in order. -/
def params : Query → List Ty
  | actualX | actualY | canvasSize => []
  | brushColor => [.str]
  | brushSize => [.intOrBool]
  | canvasColor => [.str, .intOrBool, .intOrBool]
  | colorCount => [.str, .intOrBool, .intOrBool, .intOrBool, .intOrBool]
  | randomInt => [.intOrBool, .intOrBool]

/-- The number of parameters. -/
def arity (q : Query) : Nat :=
  q.params.length

/-- Every query answers an integer or a boolean. -/
def answer (_ : Query) : Ty :=
  .intOrBool

end Query

/-! ### Expressions -/

/-- An expression. -/
inductive Expr where
  | lit (loc : Location) (v : Value)
  | var (loc : Location) (name : String)
  | call (loc : Location) (name : String) (args : List Expr)
  | group (loc : Location) (inner : Expr)
  | unary (loc : Location) (op : UnaryOp) (arg : Expr)
  | binary (loc : Location) (op : BinaryOp) (lhs rhs : Expr)
deriving Repr

namespace Expr

instance : Inhabited Expr := ⟨lit .start (.bool false)⟩

/-- Where an expression starts. -/
def loc : Expr → Location
  | lit l _ | var l _ | call l _ _ | group l _ | unary l _ _ | binary l _ _ _ => l

/-- The value of an expression that is built from integer and boolean literals by brackets and
minus signs alone. -/
def constantInt? : Expr → Option Integer
  | lit _ v => v.asInt?
  | group _ e => e.constantInt?
  | unary _ .neg e => e.constantInt?.bind Integer.neg?
  | _ => none

/-- Induction over trees. The arguments of a call are below it, one by one. -/
theorem inductionOn {motive : Expr → Prop}
    (lit : ∀ l v, motive (lit l v)) (var : ∀ l x, motive (var l x))
    (call : ∀ l f args, (∀ a ∈ args, motive a) → motive (call l f args))
    (group : ∀ l e, motive e → motive (group l e))
    (unary : ∀ l op e, motive e → motive (unary l op e))
    (binary : ∀ l op a b, motive a → motive b → motive (binary l op a b)) :
    ∀ e, motive e
  | .lit l v => lit l v
  | .var l x => var l x
  | .call l f args => call l f args fun a _ => inductionOn lit var call group unary binary a
  | .group l e => group l e (inductionOn lit var call group unary binary e)
  | .unary l op e => unary l op e (inductionOn lit var call group unary binary e)
  | .binary l op a b =>
    binary l op a b (inductionOn lit var call group unary binary a)
      (inductionOn lit var call group unary binary b)

/-! #### Walking a tree -/

mutual

/-- The nodes of a tree: a node before what is below it, from left to right. -/
def preorder : Expr → List Expr
  | lit l v => [lit l v]
  | var l x => [var l x]
  | call l f args => call l f args :: preorderAll args
  | group l e => group l e :: preorder e
  | unary l op e => unary l op e :: preorder e
  | binary l op a b => binary l op a b :: (preorder a ++ preorder b)

/-- The nodes of several trees, one tree after the other. -/
def preorderAll : List Expr → List Expr
  | [] => []
  | e :: es => preorder e ++ preorderAll es

end

/-! #### Written form -/

/-- The written form of a literal. Strings stand in quotes as they are. -/
def literalText : Value → String
  | .str s => "\"" ++ s ++ "\""
  | v => v.text

mutual

/-- The written form of an expression: operators and the words `call` and `group` stand in front
of what they apply to. -/
def text : Expr → String
  | lit _ v => literalText v
  | var _ x => x
  | call _ f args => "(call " ++ f ++ spacedText args ++ ")"
  | group _ e => "(group " ++ text e ++ ")"
  | unary _ op e => "(" ++ op.symbol ++ " " ++ text e ++ ")"
  | binary _ op a b => "(" ++ op.symbol ++ " " ++ text a ++ " " ++ text b ++ ")"

/-- The written forms of several expressions, each behind a space. -/
def spacedText : List Expr → String
  | [] => ""
  | e :: es => " " ++ text e ++ spacedText es

end

end Expr

/-! ### Statements -/

namespace Stmt

/-- What a statement does. -/
inductive Kind where
  | spawn (x y : Expr)
  | respawn (x y : Expr)
  | color (value : Expr)
  | size (value : Expr)
  | drawLine (dirX dirY distance : Expr)
  | drawCircle (dirX dirY radius : Expr)
  | drawRectangle (dirX dirY distance width height : Expr)
  | fill
  | filling (value : Expr)
  | assign (name : String) (value : Expr)
  | label (name : String)
  | goTo (label : String) (condition : Expr)
  | expr (e : Expr)
deriving Repr

end Stmt

/-- A statement and the place where it starts. -/
structure Stmt where
  loc : Location
  kind : Stmt.Kind
deriving Repr

namespace Stmt

namespace Kind

/-- The argument expressions in the order they are written. -/
def args : Kind → List Expr
  | spawn x y | respawn x y => [x, y]
  | color e | size e | filling e | assign _ e | goTo _ e | expr e => [e]
  | drawLine dx dy d => [dx, dy, d]
  | drawCircle dx dy r => [dx, dy, r]
  | drawRectangle dx dy d w h => [dx, dy, d, w, h]
  | fill | label _ => []

/-- The command whose word starts the statement, if one does. -/
def command? : Kind → Option Command
  | spawn .. => some .spawn
  | respawn .. => some .respawn
  | color .. => some .color
  | size .. => some .size
  | drawLine .. => some .drawLine
  | drawCircle .. => some .drawCircle
  | drawRectangle .. => some .drawRectangle
  | fill => some .fill
  | filling .. => some .filling
  | goTo .. => some .goTo
  | assign .. | label .. | expr .. => none

/-- Whether the statement is a `spawn`. -/
def isSpawn : Kind → Bool
  | spawn .. => true
  | _ => false

/-- The written form of a statement: the word of the command, or the arrow, or the word `label`,
stands in front of what it applies to. -/
def text : Kind → String
  | assign x e => "(<- " ++ x ++ " " ++ e.text ++ ")"
  | label l => "(label " ++ l ++ ")"
  | goTo l e => "(GoTo " ++ l ++ " " ++ e.text ++ ")"
  | expr e => e.text
  | spawn x y => command .spawn [x, y]
  | respawn x y => command .respawn [x, y]
  | color e => command .color [e]
  | size e => command .size [e]
  | drawLine dx dy d => command .drawLine [dx, dy, d]
  | drawCircle dx dy r => command .drawCircle [dx, dy, r]
  | drawRectangle dx dy d w h => command .drawRectangle [dx, dy, d, w, h]
  | fill => command .fill []
  | filling e => command .filling [e]
where
  /-- The written form of a command with its arguments. -/
  command (c : Command) (args : List Expr) : String :=
    "(" ++ c.name ++ Expr.spacedText args ++ ")"

end Kind

/-- The argument expressions in the order they are written. -/
def args (s : Stmt) : List Expr :=
  s.kind.args

/-- Whether a statement writes pixels. -/
def isDrawing (s : Stmt) : Bool :=
  match s.kind with
  | .drawLine .. | .drawCircle .. | .drawRectangle .. | .fill => true
  | _ => false

/-- The written form of a statement. -/
def text (s : Stmt) : String :=
  s.kind.text

end Stmt

/-- A whole program. -/
structure Program where
  stmts : List Stmt := []
deriving Repr

namespace Program

/-- Where the program starts: at its first statement, or at the start of the text if it has
none. -/
def loc (p : Program) : Location :=
  (p.stmts.head?.map Stmt.loc).getD .start

/-- The written form of a program, one statement a line. -/
def text (p : Program) : String :=
  "\n".intercalate (p.stmts.map Stmt.text)

/-- A statement or an expression of a program. -/
inductive Node where
  | stmt (s : Stmt)
  | expr (e : Expr)
deriving Repr

/-- All statements and expressions in the order of the text, a node before what is below it. -/
def preorder (p : Program) : List Node :=
  p.stmts.flatMap fun s => .stmt s :: (Expr.preorderAll s.args).map .expr

end Program

end PenScript
