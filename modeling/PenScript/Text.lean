/-!
# Texts

What programs, pictures and the command line share about texts: places in a text, the blank
characters of Unicode, hexadecimal digits, and the extension of a file name.

A `Location` is a line and a column, both counted from one; columns count characters, not
bytes. Reading a text from `Location.start` and taking one `Location.advance` per character
leads to the place of every character, and `Location.ofOffset` gives the place that stands at a
byte offset.

## Main definitions

* `Location.after` — the place reached by reading a list of characters;
* `Location.ofOffset` — the place at a byte offset, offsets past the end meaning the end;
* `Located` — anything that was found at a place;
* `trimBlanks` — a text without the blanks at its two ends;
* `Hex.digit`, `Hex.value?` — written in upper case and read in either case;
* `Path.extension?` — the extension of a path.
-/

namespace PenScript

/-! ### Places -/

/-- The number of bytes that characters take up in a text. -/
def byteSize (cs : List Char) : Nat :=
  cs.foldl (fun n c => n + c.utf8Size) 0

/-- A place in a text: a line and a column, both counted from one. -/
structure Location where
  line : Nat
  column : Nat
deriving DecidableEq, Repr

namespace Location

/-- The place of the first character of a text. -/
def start : Location := ⟨1, 1⟩

instance : Inhabited Location := ⟨start⟩

/-- The place behind one character: a line break opens the next line. -/
def advance (loc : Location) (c : Char) : Location :=
  if c = '\n' then ⟨loc.line + 1, 1⟩ else ⟨loc.line, loc.column + 1⟩

/-- The place behind a run of characters that starts at `loc`. -/
def advanceAll (loc : Location) (cs : List Char) : Location :=
  cs.foldl advance loc

/-- The place reached by reading `cs` from the start of a text. -/
def after (cs : List Char) : Location :=
  start.advanceAll cs

/-- The longest start of `cs` that takes up at most `n` bytes. -/
def fitting : Nat → List Char → List Char
  | _, [] => []
  | n, c :: cs => if c.utf8Size ≤ n then c :: fitting (n - c.utf8Size) cs else []

/-- The place at byte `offset` of `text`. An offset past the end means the end. -/
def ofOffset (text : String) (offset : Nat) : Location :=
  after (fitting offset text.toList)

/-- Places are ordered by line, then by column. -/
instance : LT Location where
  lt a b := a.line < b.line ∨ a.line = b.line ∧ a.column < b.column

instance (a b : Location) : Decidable (a < b) :=
  inferInstanceAs (Decidable (a.line < b.line ∨ a.line = b.line ∧ a.column < b.column))

/-- The written form of a place, such as `3:14`. -/
def text (loc : Location) : String :=
  s!"{loc.line}:{loc.column}"

/-- No character, no step. -/
@[simp] theorem advanceAll_nil (loc : Location) : loc.advanceAll [] = loc := rfl

/-- The first character is one step. -/
@[simp] theorem advanceAll_cons (loc : Location) (c : Char) (cs : List Char) :
    loc.advanceAll (c :: cs) = (loc.advance c).advanceAll cs := rfl

/-- A text is read part by part. -/
@[simp] theorem advanceAll_append (loc : Location) (cs ds : List Char) :
    loc.advanceAll (cs ++ ds) = (loc.advanceAll cs).advanceAll ds := by
  simp [advanceAll, List.foldl_append]

end Location

/-- Something found at a place of a text. -/
structure Located (α : Type) where
  loc : Location
  what : α
deriving DecidableEq, Repr

/-! ### Blank characters

The property `White_Space` has 25 members; core's `Char.isWhitespace` knows four of them. -/

/-- The ranges of code points with the property `White_Space`, ends included. -/
def blankRanges : List (Nat × Nat) :=
  [(0x09, 0x0D), (0x20, 0x20), (0x85, 0x85), (0xA0, 0xA0), (0x1680, 0x1680), (0x2000, 0x200A),
   (0x2028, 0x2029), (0x202F, 0x202F), (0x205F, 0x205F), (0x3000, 0x3000)]

/-- Whether a character has the property `White_Space`. -/
def isBlank (c : Char) : Bool :=
  blankRanges.any fun r => r.1 ≤ c.toNat && c.toNat ≤ r.2

/-- The text without the blanks at its two ends. -/
def trimBlanks (cs : List Char) : List Char :=
  ((cs.dropWhile isBlank).reverse.dropWhile isBlank).reverse

/-- The table has 25 members. -/
example : (blankRanges.map fun r => r.2 + 1 - r.1).sum = 25 := by decide

/-! ### Hexadecimal digits -/

namespace Hex

/-- The upper case digit of a number below sixteen. -/
def digit (n : Nat) : Char :=
  if n < 10 then Char.ofNat (48 + n) else Char.ofNat (55 + n)

/-- The number that a digit stands for. -/
def value? (c : Char) : Option Nat :=
  if '0' ≤ c ∧ c ≤ '9' then some (c.toNat - 48)
  else if 'a' ≤ c ∧ c ≤ 'f' then some (c.toNat - 87)
  else if 'A' ≤ c ∧ c ≤ 'F' then some (c.toNat - 55)
  else none

/-- A byte as two digits, the high half first. -/
def byte (b : UInt8) : List Char :=
  [digit (b.toNat / 16), digit (b.toNat % 16)]

end Hex

/-! ### File names

Slashes at the end of a path and single dots between slashes name nothing; two dots lead out of a
directory and have no extension; a dot at the start of a name hides a file and does not start an
extension. -/

namespace Path

/-- The parts of a path that name something. -/
def parts (path : String) : List String :=
  (path.splitOn "/").filter fun part => part ≠ "" ∧ part ≠ "."

/-- The last part of a path, unless it leads out of a directory. -/
def fileName? (path : String) : Option String :=
  (parts path).getLast?.filter (· ≠ "..")

/-- What stands behind the last dot of the file name, if something stands before it. -/
def extension? (path : String) : Option String := do
  let name := (← fileName? path).toList
  let behind := (name.reverse.takeWhile (· ≠ '.')).reverse
  if name.length ≤ behind.length + 1 then none else some (String.ofList behind)

end Path

end PenScript
