import PenScript.Diagnostic

/-!
# From a text to lines of tokens

The characters of a text are cut into segments from left to right, each as long as possible. A
segment is a token, a gap (blanks or a comment), or a fault. Nothing is lost: the segments put end
to end are the text again. A lexeme is a token together with the part of the text it was read from.
Reading a text gives its lexemes in order, the end of the text, and the faults between them; a fault
never hides the tokens behind it, except for a string literal that never ends.

Every statement ends with a line break and none contains one, so the line break is a token of its
own, the lexemes of a text are taken apart at the line breaks, and each line is read on its own. A
line remembers the lexeme that ends it, because a message may name it.

## Main definitions

* `Segment.reach` — what starts at a character and how far it goes;
* `Segment.cut` — all segments of a text;
* `lex` — reads a whole text;
* `Line.split` — the lines of a text;
* `Line.current` — the lexeme to be read when a part of the line is left.

## Main results

* `Segment.flatMap_text_cut` — the segments put end to end are the text.
-/

namespace PenScript

/-! ### Tokens -/

/-- A word of the language. -/
inductive Token where
  | int (n : Integer)
  | bool (b : Bool)
  | str (s : String)
  | ident (name : String)
  | bang
  | op (op : BinaryOp)
  | assign
  | openParen
  | closeParen
  | openBracket
  | closeBracket
  | comma
  | command (c : Command)
  | endl
  | eof
deriving DecidableEq, Repr

namespace Token

/-- How a token is named in messages and listings. -/
def text : Token → String
  | int n => n.text
  | bool b => (Value.bool b).text
  | str s => "\"" ++ s ++ "\""
  | ident name => name
  | bang => "!"
  | op o => o.symbol
  | assign => "<-"
  | openParen => "("
  | closeParen => ")"
  | openBracket => "["
  | closeBracket => "]"
  | comma => ","
  | command c => c.name
  | endl => "end of line"
  | eof => "end of file"

/-- The binding powers of a token that can stand between two operands. -/
def power? : Token → Option (Nat × Nat)
  | op o => some o.power
  | _ => none

/-- Whether a token can only stand at the start of a statement. -/
def isCommand : Token → Bool
  | command _ => true
  | _ => false

end Token

/-! ### Segments -/

/-- Why a part of a text is no token. -/
inductive LexError where
  | strayChar (c : Char)
  | hugeInteger (digits : String)
  | openString
deriving DecidableEq, Repr

/-- The wording of a lexical fault. -/
def LexError.message : LexError → String
  | strayChar c => "Unexpected character '" ++ String.singleton c ++ "'."
  | hugeInteger digits => "Invalid integer literal '" ++ digits ++ "'."
  | openString => "Unterminated string literal."

namespace Segment

/-- What a segment is. -/
inductive Kind where
  | token (t : Token)
  | gap
  | fault (e : LexError)
deriving DecidableEq, Repr

end Segment

/-- A part of a text. -/
structure Segment where
  kind : Segment.Kind
  text : List Char
deriving DecidableEq, Repr

namespace Segment

/-! #### Character classes -/

/-- A name starts with a letter. -/
def isNameStart (c : Char) : Bool :=
  c.isAlpha

/-- A name goes on with letters, digits and underscores. -/
def isNameRest (c : Char) : Bool :=
  c.isAlphanum || c == '_'

/-- The characters that separate tokens. The line break is not among them. -/
def isGap (c : Char) : Bool :=
  c == ' ' || c == '\t' || c == '\r' || c == '\x0c'

/-! #### The kinds of segments -/

/-- The names that are no names: literals, operators and commands. -/
def reserved : List (String × Token) :=
  [("true", .bool true), ("false", .bool false), ("and", .op .and), ("or", .op .or)]
    ++ Command.all.map fun c => (c.name, .command c)

/-- The token that a whole name stands for. -/
def ofName (name : String) : Token :=
  (reserved.lookup name).getD (.ident name)

/-- The value of a list of decimal digits. -/
def decimal (digits : List Char) : Nat :=
  digits.foldl (fun n d => 10 * n + (d.toNat - 48)) 0

/-- The integer literal with given digits. -/
def ofDigits (digits : List Char) : Kind :=
  match Integer.ofInt? (decimal digits) with
  | some n => .token (.int n)
  | none => .fault (.hugeInteger (String.ofList digits))

/-- The sign at the head of a text and how many characters it takes beyond the first one. Of two
signs that fit, the longer one is meant. -/
def sign? : Char → List Char → Option (Token × Nat)
  | '*', '*' :: _ => some (.op .pow, 1)
  | '*', _ => some (.op .mul, 0)
  | '<', '-' :: _ => some (.assign, 1)
  | '<', '=' :: _ => some (.op .le, 1)
  | '<', _ => some (.op .lt, 0)
  | '>', '=' :: _ => some (.op .ge, 1)
  | '>', _ => some (.op .gt, 0)
  | '=', '=' :: _ => some (.op .eq, 1)
  | '!', '=' :: _ => some (.op .ne, 1)
  | '!', _ => some (.bang, 0)
  | '+', _ => some (.op .add, 0)
  | '-', _ => some (.op .sub, 0)
  | '/', _ => some (.op .div, 0)
  | '%', _ => some (.op .mod, 0)
  | '(', _ => some (.openParen, 0)
  | ')', _ => some (.closeParen, 0)
  | '[', _ => some (.openBracket, 0)
  | ']', _ => some (.closeBracket, 0)
  | ',', _ => some (.comma, 0)
  | '\n', _ => some (.endl, 0)
  | _, _ => none

/-- What starts at the character `c` before `cs`, and how many characters of `cs` belong to it. A
string literal without an end takes all of them. -/
def reach (c : Char) (cs : List Char) : Kind × Nat :=
  if isNameStart c then
    let rest := cs.takeWhile isNameRest
    (.token (ofName (String.ofList (c :: rest))), rest.length)
  else if c.isDigit then
    let rest := cs.takeWhile Char.isDigit
    (ofDigits (c :: rest), rest.length)
  else if c = '"' then
    let inside := cs.takeWhile (· ≠ '"')
    if inside.length < cs.length then (.token (.str (String.ofList inside)), inside.length + 1)
    else (.fault .openString, cs.length)
  else if isGap c then (.gap, (cs.takeWhile isGap).length)
  else if c = '#' then (.gap, (cs.takeWhile (· ≠ '\n')).length)
  else match sign? c cs with
    | some (t, n) => (.token t, n)
    | none => (.fault (.strayChar c), 0)

/-! #### The segments of a text -/

/-- The segments of a text from left to right. -/
def cut : List Char → List Segment
  | [] => []
  | c :: cs =>
    let (kind, n) := reach c cs
    ⟨kind, c :: cs.take n⟩ :: cut (cs.drop n)
termination_by cs => cs.length
decreasing_by
  rw [List.length_drop, List.length_cons]
  omega

/-- The segments put end to end are the text. -/
theorem flatMap_text_cut (cs : List Char) : (cut cs).flatMap Segment.text = cs := by
  fun_induction cut cs with
  | case1 => rfl
  | case2 c cs kind n h ih => simp [ih]

end Segment

/-! ### Lexemes -/

/-- A token together with the part of the text it was read from. -/
structure Lexeme where
  token : Token
  text : String
  start : Nat
  stop : Nat
  loc : Location
deriving DecidableEq, Repr

/-- How far a text has been read. -/
structure Cursor where
  offset : Nat := 0
  loc : Location := .start
deriving DecidableEq, Repr

/-- Reads some more characters. -/
def Cursor.advance (here : Cursor) (cs : List Char) : Cursor :=
  ⟨here.offset + byteSize cs, here.loc.advanceAll cs⟩

/-- What was read from a text. -/
structure Lexed where
  lexemes : List Lexeme
  eof : Lexeme
  faults : List (Located LexError)

namespace Lexed

/-- Places segments one after the other. -/
def ofSegments (here : Cursor) : List Segment → Lexed
  | [] => ⟨[], ⟨.eof, "", here.offset, here.offset, here.loc⟩, []⟩
  | seg :: segs =>
    let next := here.advance seg.text
    let rest := ofSegments next segs
    match seg.kind with
    | .gap => rest
    | .fault e => { rest with faults := ⟨here.loc, e⟩ :: rest.faults }
    | .token t =>
      let lexeme := ⟨t, String.ofList seg.text, here.offset, next.offset, here.loc⟩
      { rest with lexemes := lexeme :: rest.lexemes }

/-- The lexemes in order, the last one being the end of the text. -/
def all (lexed : Lexed) : List Lexeme :=
  lexed.lexemes ++ [lexed.eof]

/-- Keeps the first `n` lexemes. -/
def take (lexed : Lexed) (n : Nat) : Lexed :=
  { lexed with lexemes := lexed.lexemes.take n }

/-- The lexical faults as they are shown. -/
def diagnostics (lexed : Lexed) : List Diagnostic :=
  lexed.faults.map fun e => .lexical e.loc e.what.message

end Lexed

/-- Reads a text. -/
def lex (text : String) : Lexed :=
  Lexed.ofSegments {} (Segment.cut text.toList)

/-! ### Lines -/

/-- The lexemes of one line and the one that ends it: a line break or the end of the text. -/
structure Line where
  lexemes : List Lexeme
  stop : Lexeme
deriving DecidableEq, Repr

namespace Line

/-- The lines of a text whose last lexeme is `eof`. There is always a last line. -/
def split (eof : Lexeme) (lexemes : List Lexeme) : List Line :=
  go [] lexemes
where
  /-- Collects a line in reverse until a line break ends it. -/
  go (line : List Lexeme) : List Lexeme → List Line
    | [] => [⟨line.reverse, eof⟩]
    | l :: ls => if l.token = .endl then ⟨line.reverse, l⟩ :: go [] ls else go (l :: line) ls

/-- The first line of a text whose last lexeme is `eof`. -/
def first (eof : Lexeme) (lexemes : List Lexeme) : Line where
  lexemes := lexemes.takeWhile fun l => l.token ≠ .endl
  stop := (lexemes.find? fun l => l.token = .endl).getD eof

/-- The lexeme to be read when `rest` is left of the line. -/
def current (line : Line) (rest : List Lexeme) : Lexeme :=
  rest.headD line.stop

end Line

end PenScript
