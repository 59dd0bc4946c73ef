import PenScript.Parser

/-!
# Programs line by line

A text is cut at its line breaks, so what is read from it is what is read from its first line,
followed by what is read from the others.

## Main results

* `Line.split_cons`, `Line.split_last`: the lines of a text;
* `Program.parse_cons`, `Program.parse_last`: what is read from a text, line by line.
-/

namespace PenScript

variable {eof stop : Lexeme} {line rest : List Lexeme}

/-! ### The lines of a text -/

namespace Line

/-- There is no line break among the lexemes. -/
def Unbroken (line : List Lexeme) : Prop :=
  ∀ l ∈ line, l.token ≠ .endl

/-- The rest of an unbroken line is unbroken. -/
theorem Unbroken.of_suffix (h : Unbroken line) (suffix : rest <:+ line) : Unbroken rest :=
  fun l hl => h l (suffix.subset hl)

/-- A line is collected up to its end. -/
theorem split_go_append {before : List Lexeme} (h : Unbroken line) :
    split.go eof before (line ++ rest) = split.go eof (line.reverse ++ before) rest := by
  induction line generalizing before with
  | nil => rfl
  | cons l line ih =>
      have inside : l.token ≠ .endl := h l List.mem_cons_self
      rw [List.cons_append, split.go, if_neg inside,
        ih fun l' hl' => h l' (List.mem_cons_of_mem l hl')]
      simp

/-- The first line of a text goes up to the first line break. -/
theorem split_cons (h : Unbroken line) (ends : stop.token = .endl) :
    split eof (line ++ stop :: rest) = ⟨line, stop⟩ :: split eof rest := by
  rw [split, split_go_append h, split.go, if_pos ends]
  simp [split]

/-- A text without line breaks is one line. -/
theorem split_last (h : Unbroken line) : split eof line = [⟨line, eof⟩] := by
  have whole : split.go eof [] (line ++ []) = split.go eof (line.reverse ++ []) [] :=
    split_go_append h
  simpa [split, split.go] using whole

end Line

/-! ### What is read from the lines -/

/-- What was read from two parts of a text, one behind the other. -/
instance : Append Parsed where
  append first second := ⟨first.stmts ++ second.stmts, first.faults ++ second.faults⟩

namespace Parsed

/-- Statements and faults are appended each. -/
theorem append_def (p q : Parsed) : p ++ q = ⟨p.stmts ++ q.stmts, p.faults ++ q.faults⟩ :=
  rfl

/-- Nothing is appended. -/
theorem append_empty (p : Parsed) : p ++ {} = p := by
  simp [append_def]

/-- It does not matter what is appended first. -/
theorem append_assoc (p q r : Parsed) : p ++ q ++ r = p ++ (q ++ r) := by
  simp [append_def]

end Parsed

namespace Program

/-- The first line of a program is read before the others. -/
theorem parse_cons (h : Line.Unbroken line) (ends : stop.token = .endl) :
    Program.parse eof (line ++ stop :: rest) =
      Line.parse ⟨line, stop⟩ ++ Program.parse eof rest := by
  rw [Program.parse, Line.split_cons h ends]
  rfl

/-- A program without line breaks is read as one line. -/
theorem parse_last (h : Line.Unbroken line) :
    Program.parse eof line = Line.parse ⟨line, eof⟩ := by
  rw [Program.parse, Line.split_last h]
  simp

end Program

end PenScript
