import PenScript.Lexer

/-!
# Reading programs

A parser reads lexemes from the front of a line. It succeeds with what it read and the lexemes it
left, or gives up with a cause. A parser that gives up stands at the first lexeme that fits nothing;
the rest of the line it leaves starts there. So a parser only names the cause, and
`SyntaxError.ofRest` adds the lexeme.

Expressions are read by precedence climbing: an operand, then as many operators as bind tightly
enough, each with its right operand. A budget bounds the nesting, and reading is a recursion over
it. Every operand costs one unit, and every operator of a chain costs one unit for all that follows
it; the first operand of the chain was read before and is not charged again.

A statement takes a whole line. The word of a command decides what follows; a line that starts with
a name is an assignment, a label, or an expression. A program is read line by line. A line that is
no statement gives a syntax error; reading goes on in the same line at the next word that starts a
command, and otherwise in the next line. Errors of one line therefore never touch another one.

## Main definitions

* `SyntaxError` — the lexeme at which a parser gave up, and why;
* `Parser.accept`, `Parser.expect` — reading a given token;
* `Expr.parseWithin` — an expression whose operators bind at least so tightly;
* `Stmt.parse` — a statement that takes the whole line;
* `Line.parse` — the statement and the syntax errors of a line;
* `Program.parse` — all statements and all syntax errors;
* `Expr.read`, `Stmt.read` — one expression, one statement.
-/

namespace PenScript

/-! ### Syntax errors -/

/-- What would have been accepted at some lexeme. -/
inductive Expectation where
  | expression
  | groupEnd (bracket : Token)
  | argumentEnd
  | argumentsOf (c : Command)
  | commaOf (c : Command)
  | endOf (c : Command)
  | labelStart
  | labelName
  | labelEnd
  | conditionStart
  | conditionEnd
  | lineEnd
deriving DecidableEq, Repr

/-- How an expectation is described. -/
def Expectation.text : Expectation → String
  | expression => "expression"
  | groupEnd bracket => "'" ++ bracket.text ++ "' to close group"
  | argumentEnd => "',' or ')' in argument list"
  | argumentsOf c => "'(' after '" ++ c.name ++ "'"
  | commaOf c => "',' between arguments of '" ++ c.name ++ "'"
  | endOf c => "')' after " ++ toString c.arity ++ " argument(s) of '" ++ c.name ++ "'"
  | labelStart => "'[' after 'GoTo'"
  | labelName => "label name"
  | labelEnd => "']' after label name"
  | conditionStart => "'(' before 'GoTo' condition"
  | conditionEnd => "')' after 'GoTo' condition"
  | lineEnd => "end of line after statement"

/-- The greatest number of operands being read and operators folded so far at one place of an
expression. It keeps trees low enough for everything that recurses over them. -/
def maxNesting : Nat := 128

namespace SyntaxError

/-- Why a parser gave up. -/
inductive Cause where
  | expected (e : Expectation)
  | tooDeep
deriving DecidableEq, Repr

end SyntaxError

/-- A syntax error: the lexeme at which a parser gave up, and why. -/
structure SyntaxError where
  found : Lexeme
  cause : SyntaxError.Cause
deriving DecidableEq, Repr

namespace SyntaxError

/-- The error of a parser that gave up in `line` with `rest` left. -/
def ofRest (line : Line) (cause : Cause) (rest : List Lexeme) : SyntaxError :=
  ⟨line.current rest, cause⟩

/-- The wording of a syntax error. -/
def message (e : SyntaxError) : String :=
  match e.cause with
  | .expected what => "Expected " ++ what.text ++ ", found '" ++ e.found.token.text ++ "'."
  | .tooDeep => "Expression is nested more than " ++ toString maxNesting ++ " levels deep."

/-- Descriptions of what would have been accepted. -/
def expected (e : SyntaxError) : List String :=
  match e.cause with
  | .expected what => [what.text]
  | .tooDeep => []

/-- The error as it is shown. -/
def diagnostic (e : SyntaxError) : Diagnostic :=
  .syntactic e.found.loc e.message e.found.token.text e.expected

end SyntaxError

/-! ### Parsers -/

/-- A reader of lexemes that may give up. -/
abbrev Parser := EStateM SyntaxError.Cause (List Lexeme)

namespace Parser

/-- Gives up because something else was expected. -/
def refuse {α : Type} (e : Expectation) : Parser α :=
  throw (.expected e)

/-- Reads a given token if it is next, and says whether it was. -/
def accept (t : Token) : Parser Bool
  | [] => .ok false []
  | l :: rest => if l.token = t then .ok true rest else .ok false (l :: rest)

/-- Reads a given token, or gives up because `e` was expected. -/
def expect (t : Token) (e : Expectation) : Parser Unit := do
  unless ← accept t do
    refuse e

/-- Accepts the end of the line only. -/
def lineEnd : Parser Unit
  | [] => .ok () []
  | rest => refuse .lineEnd rest

end Parser

/-! ### Expressions -/

namespace Expr

open Parser

/-- The arguments of a call up to the closing parenthesis; there is at least one. No call has more
than `bound` arguments if the line has fewer lexemes than that. -/
def arguments (argument : Parser Expr) : (bound : Nat) → Parser (List Expr)
  | 0 => refuse .argumentEnd
  | bound + 1 => do
    let e ← argument
    if ← accept .closeParen then
      return [e]
    expect .comma .argumentEnd
    return e :: (← arguments argument bound)

/-- What a name stands for: a call if a parenthesis follows, and a variable otherwise. -/
def named (argument : Parser Expr) (loc : Location) (name : String) : Parser Expr := do
  if ← accept .openParen then
    if ← accept .closeParen then
      return .call loc name []
    let rest ← get
    return .call loc name (← arguments argument (rest.length + 1))
  return .var loc name

/-- A group up to the closing bracket. -/
def grouped (inner : Parser Expr) (loc : Location) (close : Token) : Parser Expr := do
  let e ← inner
  expect close (.groupEnd close)
  return .group loc e

/-- An operand. Below it, expressions that bind at least so tightly are read by `sub`; the operand
of a unary operator holds no binary operator outside of brackets. -/
def operand (sub : Nat → Parser Expr) : Parser Expr
  | [] => refuse .expression []
  | l :: rest =>
    match l.token with
    | .int n => .ok (.lit l.loc (.int n)) rest
    | .bool b => .ok (.lit l.loc (.bool b)) rest
    | .str s => .ok (.lit l.loc (.str s)) rest
    | .ident name => named (sub 0) l.loc name rest
    | .openParen => grouped (sub 0) l.loc .closeParen rest
    | .openBracket => grouped (sub 0) l.loc .closeBracket rest
    | .bang => (.unary l.loc .not <$> sub BinaryOp.unreachedPower) rest
    | .op .sub => (.unary l.loc .neg <$> sub BinaryOp.unreachedPower) rest
    | _ => refuse .expression (l :: rest)

/-- The operator at the front of some lexemes, if it binds at least as tightly as `least`. -/
def operator? (least : Nat) : List Lexeme → Option (BinaryOp × List Lexeme)
  | [] => none
  | l :: rest =>
    match l.token with
    | .op op => if least ≤ op.power.1 then some (op, rest) else none
    | _ => none

mutual

/-- An expression within a budget whose operators bind at least as tightly as `least`. -/
def parseWithin : (budget : Nat) → (least : Nat) → Parser Expr
  | 0, _ => throw .tooDeep
  | budget + 1, least => do
    let lhs ← operand (parseWithin budget)
    chain budget least lhs

/-- Goes on behind the operand `lhs` with as many operators as bind tightly enough. -/
def chain : (budget : Nat) → (least : Nat) → (lhs : Expr) → Parser Expr
  | 0, least, lhs => fun lexemes =>
    match operator? least lexemes with
    | some (_, rest) => .error .tooDeep rest
    | none => .ok lhs lexemes
  | budget + 1, least, lhs => fun lexemes =>
    match operator? least lexemes with
    | some (op, rest) =>
      (do
        let rhs ← parseWithin budget op.power.2
        chain budget least (.binary lhs.loc op lhs rhs)) rest
    | none => .ok lhs lexemes

end

/-- Any expression. -/
def parse : Parser Expr :=
  parseWithin maxNesting 0

end Expr

/-! ### Statements -/

namespace Stmt

open Parser

namespace Kind

/-- One argument of a command. -/
def firstArg (c : Command) : Parser Expr := do
  expect .openParen (.argumentsOf c)
  Expr.parse

/-- A comma and one more argument of a command. -/
def nextArg (c : Command) : Parser Expr := do
  expect .comma (.commaOf c)
  Expr.parse

/-- The end of the arguments of a command. -/
def argsEnd (c : Command) : Parser Unit :=
  expect .closeParen (.endOf c)

/-- A command with one argument. -/
def unaryCommand (c : Command) (make : Expr → Kind) : Parser Kind := do
  let a ← firstArg c
  argsEnd c
  return make a

/-- A command with two arguments. -/
def binaryCommand (c : Command) (make : Expr → Expr → Kind) : Parser Kind := do
  let a ← firstArg c
  let b ← nextArg c
  argsEnd c
  return make a b

/-- A command with three arguments. -/
def ternaryCommand (c : Command) (make : Expr → Expr → Expr → Kind) : Parser Kind := do
  let a ← firstArg c
  let b ← nextArg c
  let d ← nextArg c
  argsEnd c
  return make a b d

/-- The label of a jump. -/
def labelName : Parser String
  | [] => refuse .labelName []
  | l :: rest =>
    match l.token with
    | .ident name => .ok name rest
    | _ => refuse .labelName (l :: rest)

/-- The label and the condition of a jump. -/
def jump : Parser Kind := do
  expect .openBracket .labelStart
  let target ← labelName
  expect .closeBracket .labelEnd
  expect .openParen .conditionStart
  let condition ← Expr.parse
  expect .closeParen .conditionEnd
  return .goTo target condition

/-- What follows the word of a command. -/
def afterCommand : Command → Parser Kind
  | .spawn => binaryCommand .spawn .spawn
  | .respawn => binaryCommand .respawn .respawn
  | .color => unaryCommand .color .color
  | .size => unaryCommand .size .size
  | .drawLine => ternaryCommand .drawLine .drawLine
  | .drawCircle => ternaryCommand .drawCircle .drawCircle
  | .drawRectangle => do
    let dx ← firstArg .drawRectangle
    let dy ← nextArg .drawRectangle
    let d ← nextArg .drawRectangle
    let w ← nextArg .drawRectangle
    let h ← nextArg .drawRectangle
    argsEnd .drawRectangle
    return .drawRectangle dx dy d w h
  | .fill => do
    expect .openParen (.argumentsOf .fill)
    argsEnd .fill
    return .fill
  | .filling => unaryCommand .filling .filling
  | .goTo => jump

/-- A line that starts with a name: an assignment if an arrow follows; a label if the line ends
there, or behind one more name when the first one is `Label`; an expression otherwise. -/
def afterName (name : String) (l : Lexeme) (rest : List Lexeme) :
    EStateM.Result SyntaxError.Cause (List Lexeme) Kind :=
  match rest with
  | [] => .ok (.label name) []
  | next :: rest' =>
    match next.token, rest' with
    | .assign, _ => (Kind.assign name <$> Expr.parse) rest'
    | .ident declared, [] =>
      if name = "Label" then .ok (.label declared) [] else (Kind.expr <$> Expr.parse) (l :: rest)
    | _, _ => (Kind.expr <$> Expr.parse) (l :: rest)

/-- What a line does, up to its end. -/
def parse : Parser Kind
  | [] => (Kind.expr <$> Expr.parse) []
  | l :: rest =>
    match l.token with
    | .command c => afterCommand c rest
    | .ident name => afterName name l rest
    | _ => (Kind.expr <$> Expr.parse) (l :: rest)

end Kind

/-- A statement that takes the whole line and starts at `loc`. -/
def parse (loc : Location) : Parser Stmt := do
  let kind ← Kind.parse
  lineEnd
  return ⟨loc, kind⟩

end Stmt

/-! ### Programs -/

/-- What was read from a program or from a part of it. -/
structure Parsed where
  stmts : List Stmt := []
  faults : List SyntaxError := []

namespace Parsed

/-- The program that was read. -/
def program (p : Parsed) : Program :=
  ⟨p.stmts⟩

/-- The syntax errors as they are shown. -/
def diagnostics (p : Parsed) : List Diagnostic :=
  p.faults.map SyntaxError.diagnostic

end Parsed

namespace Line

/-- Where reading goes on after an error: behind the offending lexeme, at the next command. -/
def resume (rest : List Lexeme) : List Lexeme :=
  rest.tail.dropWhile fun l => !l.token.isCommand

/-- What is read from the lexemes of a line that are left. Every error uses up a lexeme, so there
are at most `bound` of them if no more lexemes than that are left. -/
def parseRest (line : Line) : (bound : Nat) → List Lexeme → Parsed
  | _, [] => {}
  | 0, _ => {}
  | bound + 1, l :: rest =>
    match Stmt.parse l.loc (l :: rest) with
    | .ok stmt _ => { stmts := [stmt] }
    | .error cause left =>
      let parsed := line.parseRest bound (resume left)
      { parsed with faults := .ofRest line cause left :: parsed.faults }

/-- The statement and the syntax errors of a line. A line without lexemes has neither. -/
def parse (line : Line) : Parsed :=
  line.parseRest line.lexemes.length line.lexemes

end Line

/-- The statements and syntax errors of a text whose last lexeme is `eof`. -/
def Program.parse (eof : Lexeme) (lexemes : List Lexeme) : Parsed :=
  let parsed := (Line.split eof lexemes).map Line.parse
  ⟨parsed.flatMap Parsed.stmts, parsed.flatMap Parsed.faults⟩

/-- Runs a parser on a line and adds the offending lexeme to its error. -/
def Parser.read {α : Type} (p : Parser α) (line : Line) : Except SyntaxError α :=
  match p line.lexemes with
  | .ok a _ => .ok a
  | .error cause rest => .error (.ofRest line cause rest)

/-- The expression at the front of a text; what follows it is left alone. -/
def Expr.read (eof : Lexeme) (lexemes : List Lexeme) : Except SyntaxError Expr :=
  Expr.parse.read (Line.first eof lexemes)

/-- The statement of the first line of a text. -/
def Stmt.read (eof : Lexeme) (lexemes : List Lexeme) : Except SyntaxError Stmt :=
  let line := Line.first eof lexemes
  (Stmt.parse (line.current line.lexemes).loc).read line

end PenScript
