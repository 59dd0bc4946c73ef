import PenScript.Syntax

/-!
# Errors and how they are shown

A `Diagnostic` is a fault as it is shown to the user: which part of the pipeline found it, where,
and its wording. A `Log` keeps diagnostics in the order of reporting. The stages have fault types of
their own that name causes; each of them turns into a diagnostic through its `message`.

The semantic errors are the rules of the language that can be checked without running a program,
named by how they are broken. The runtime errors are the ways in which a running program fails. Both
name the role of an expression, which is what it is to the statement, call or operator around it, in
one wording before a program runs and in another one while it runs.

## Main definitions

* `Diagnostic`, `Diagnostic.text` — a fault and the line that shows it;
* `Role` — what an expression is to what stands around it;
* `SemanticError`, `RuntimeError` — the errors of the two stages, with their `message`;
* `Failure` — a runtime error and its place.
-/

namespace PenScript

/-! ### Diagnostics -/

/-- A fault as it is shown to the user. A syntax error keeps the text of the offending token and
descriptions of what would have been accepted. Something outside of the program, a file or an image,
has no place in the text. -/
inductive Diagnostic where
  | lexical (loc : Location) (message : String)
  | syntactic (loc : Location) (message : String) (found : String) (expected : List String)
  | semantic (loc : Location) (message : String)
  | runtime (loc : Location) (message : String)
  | boundary (message : String)
deriving DecidableEq, Repr

namespace Diagnostic

/-- Where the fault is, unless it is outside the program. -/
def location? : Diagnostic → Option Location
  | lexical loc _ | syntactic loc _ _ _ | semantic loc _ | runtime loc _ => some loc
  | boundary _ => none

/-- The wording without place and kind. -/
def message : Diagnostic → String
  | lexical _ m | syntactic _ m _ _ | semantic _ m | runtime _ m | boundary m => m

/-- The word that names the kind of the fault. -/
def kind : Diagnostic → String
  | lexical .. => "Lexical"
  | syntactic .. => "Syntax"
  | semantic .. => "Semantic"
  | runtime .. => "Runtime"
  | boundary .. => "Import"

/-- Whether the fault arose while the program ran. -/
def isRuntime : Diagnostic → Bool
  | runtime .. => true
  | _ => false

/-- The full written form: place, kind and wording. -/
def text (d : Diagnostic) : String :=
  match d.location? with
  | some loc => "[" ++ loc.text ++ "] " ++ d.kind ++ " error: " ++ d.message
  | none => d.kind ++ " error: " ++ d.message

/-! #### Logs -/

/-- Diagnostics in the order in which they were reported. -/
structure Log where
  entries : List Diagnostic := []

namespace Log

/-- Reports one more fault. -/
def add (log : Log) (d : Diagnostic) : Log :=
  ⟨log.entries ++ [d]⟩

/-- Hands over all entries and starts again. -/
def take (log : Log) : List Diagnostic × Log :=
  (log.entries, {})

/-- One entry a line. -/
def text (log : Log) : String :=
  String.join (log.entries.map fun d => d.text ++ "\n")

end Log

end Diagnostic

/-! ### Roles of expressions -/

/-- What an expression is to what stands around it. -/
inductive Role where
  | argument (index : Nat) (of : String)
  | operand (op : UnaryOp)
  | left (op : BinaryOp)
  | right (op : BinaryOp)
  | condition (label : String)
deriving DecidableEq, Repr

namespace Role

/-- How a role is named before a program runs, at the start of a sentence. -/
def staticText : Role → String
  | argument i f => "Argument " ++ toString i ++ " of '" ++ f ++ "'"
  | operand op => "Operand of unary '" ++ op.symbol ++ "'"
  | left op => "Left operand of '" ++ op.symbol ++ "'"
  | right op => "Right operand of '" ++ op.symbol ++ "'"
  | condition label => "Condition of 'GoTo[" ++ label ++ "]'"

/-- How a role is named while a program runs, within a sentence. -/
def dynamicText : Role → String
  | argument i f => "argument " ++ toString i ++ " of '" ++ f ++ "'"
  | operand op => "operand of '" ++ op.symbol ++ "'"
  | left op => "left operand of '" ++ op.symbol ++ "'"
  | right op => "right operand of '" ++ op.symbol ++ "'"
  | condition _ => "condition of 'GoTo'"

end Role

/-! ### Semantic errors -/

/-- How a program breaks a rule that is checked before it runs. -/
inductive SemanticError where
  | labelAgain (name : String) (first : Location)
  | labelMissing (name : String)
  | emptyProgram
  | spawnMissing
  | spawnAgain
  | badDirection (v : Integer)
  | badColor (s : String)
  | wrongType (role : Role) (expected found : Ty)
  | undefinedVariable (name : String)
  | notApplicable (op : BinaryOp) (lhs rhs : Ty)
  | differentTypes (op : BinaryOp) (lhs rhs : Ty)
  | unknownFunction (name : String)
  | wrongArity (name : String) (expected found : Nat)
deriving DecidableEq, Repr

namespace SemanticError

/-- The wording of a semantic error. -/
def message : SemanticError → String
  | labelAgain name first => "Label '" ++ name ++ "' is already declared at " ++ first.text ++ "."
  | labelMissing name => "Label '" ++ name ++ "' is not declared."
  | emptyProgram => "Program is empty, it must start with 'Spawn'."
  | spawnMissing => "Program must start with 'Spawn'."
  | spawnAgain => "'Spawn' can only be used once, as the first statement."
  | badDirection v => "Direction component must be -1, 0 or 1, found " ++ v.text ++ "."
  | badColor s => "Invalid color '" ++ s ++ "'."
  | wrongType role expected found =>
    role.staticText ++ " must be of type " ++ expected.text ++ ", found " ++ found.text ++ "."
  | undefinedVariable name => "Undefined variable '" ++ name ++ "'."
  | notApplicable op a b =>
    "Operator '" ++ op.symbol ++ "' cannot be applied to " ++ a.text ++ " and " ++ b.text ++ "."
  | differentTypes op a b =>
    "Operands of '" ++ op.symbol ++ "' must have the same type, found " ++ a.text ++ " and "
      ++ b.text ++ "."
  | unknownFunction name => "Unknown function '" ++ name ++ "'."
  | wrongArity name expected found =>
    "Function '" ++ name ++ "' expects " ++ toString expected ++ " argument(s), found "
      ++ toString found ++ "."

end SemanticError

/-- Semantic errors and their places, in the order of reporting. -/
abbrev SemanticErrors := List (Located SemanticError)

/-- The errors as they are shown. -/
def SemanticErrors.diagnostics (es : SemanticErrors) : List Diagnostic :=
  es.map fun e => .semantic e.loc e.what.message

/-! ### Runtime errors -/

/-- The largest radius of a circle. -/
def maxRadius : Nat := 1048576

/-- The largest text that repeating a string may give, in bytes. -/
def maxTextSize : Nat := 16777216

/-- The shapes that are drawn at a distance from the pen. -/
inductive DistantShape where
  | line
  | rectangle
deriving DecidableEq, Repr

/-- The name of a shape at the start of a sentence. -/
def DistantShape.text : DistantShape → String
  | line => "Line"
  | rectangle => "Rectangle"

/-- How a running program fails. -/
inductive RuntimeError where
  | undefinedVariable (name : String)
  | unknownFunction (name : String)
  | wrongArity (name : String) (expected found : Nat)
  | expectedInteger (role : Role)
  | expectedString (role : Role)
  | incomparable (op : BinaryOp) (lhs rhs : Ty)
  | overflow (symbol : String)
  | divisionByZero
  | moduloByZero
  | negativeExponent (e : Integer)
  | negativeRepeat (n : Integer)
  | longRepeat
  | badColor (s : String)
  | emptyRange (lo hi : Integer)
  | outside (x y : Integer) (width height : Nat)
  | badDirection (v : Integer)
  | negativeDistance (shape : DistantShape) (d : Integer)
  | noDirection
  | badRadius (r : Integer)
  | badExtent (width height : Integer)
  | penOverflow
  | labelMissing (name : String)
  | labelAgain (name : String)
  | limitReached (limit : Nat)
deriving DecidableEq, Repr

namespace RuntimeError

/-- The word for a value of some type in messages of a running program. -/
def typeWord : Ty → String
  | .intOrBool => "integer"
  | .str => "string"

/-- The wording of a runtime error. -/
def message : RuntimeError → String
  | undefinedVariable name => "Undefined variable '" ++ name ++ "'."
  | unknownFunction name => "Unknown function '" ++ name ++ "'."
  | wrongArity name expected found =>
    "Function '" ++ name ++ "' expects " ++ toString expected ++ " argument(s), found "
      ++ toString found ++ "."
  | expectedInteger role => "Expected integer for " ++ role.dynamicText ++ ", got string."
  | expectedString role => "Expected string for " ++ role.dynamicText ++ ", got integer."
  | incomparable op a b =>
    "Cannot compare " ++ typeWord a ++ " and " ++ typeWord b ++ " with '" ++ op.symbol ++ "'."
  | overflow symbol => "Integer overflow in '" ++ symbol ++ "'."
  | divisionByZero => "Division by zero."
  | moduloByZero => "Modulo by zero."
  | negativeExponent e => "Negative exponent " ++ e.text ++ " in '**'."
  | negativeRepeat n => "Cannot repeat a string a negative number of times (" ++ n.text ++ ")."
  | longRepeat => "String repetition result is longer than " ++ toString maxTextSize ++ " bytes."
  | badColor s => "Invalid color '" ++ s ++ "'."
  | emptyRange lo hi =>
    "'GetRandomInt' needs min <= max, found min = " ++ lo.text ++ " and max = " ++ hi.text ++ "."
  | outside x y w h =>
    "Position (" ++ x.text ++ ", " ++ y.text ++ ") is outside the " ++ toString w ++ "x"
      ++ toString h ++ " canvas."
  | badDirection v => "Direction component must be -1, 0 or 1, found " ++ v.text ++ "."
  | negativeDistance shape d =>
    shape.text ++ " distance must not be negative, found " ++ d.text ++ "."
  | noDirection => "Direction (0, 0) cannot be used with a non-zero distance."
  | badRadius r =>
    "Circle radius must be between 1 and " ++ toString maxRadius ++ ", found " ++ r.text ++ "."
  | badExtent w h =>
    "Rectangle width and height must be positive, found " ++ w.text ++ "x" ++ h.text ++ "."
  | penOverflow => "Pen position overflows."
  | labelMissing name => "Label '" ++ name ++ "' is not declared."
  | labelAgain name => "Label '" ++ name ++ "' is declared more than once."
  | limitReached limit =>
    "Execution limit of " ++ toString limit
      ++ " statements exceeded. Check for an infinite 'GoTo' loop."

end RuntimeError

/-- A runtime error and its place. -/
abbrev Failure := Located RuntimeError

/-- The failure as it is shown. -/
def Failure.diagnostic (f : Failure) : Diagnostic :=
  .runtime f.loc f.what.message

end PenScript
