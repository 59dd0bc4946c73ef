import PenScript.Proofs.LineLocal

/-!
# Errors stay in their line

A program can be read in one go, without being cut into lines first. Then a line break is a lexeme
like any other, which ends a statement, and an error is recovered from by skipping lexemes up to the
next line or the next command. Nothing in this way of reading says that lines do not matter to each
other.

It reads the same as line by line. A statement stays in its line, the lookahead behind a name
included, and skipping stops at the same command or at the end of the line. So errors in a part of a
text change nothing in what is read from the lines behind it.

## Main definitions

* `Stream.parse` — reads a whole program in one go.

## Main results

* `Stmt.Kind.parse_lineLocal`: what follows a line does not matter to the statement in it;
* `Stream.synchronize_append`: where reading goes on behind an error;
* `Stream.parse_eq`: reading in one go is reading line by line;
* `Program.recovery_is_line_local`: what is read from two parts of a text with a line break between
  them.
-/

namespace PenScript

open PenScript.Parser

/-! ### Reading in one go -/

namespace Stream

open Stmt (Kind)

/-- A statement that starts with a name. The two lexemes behind the name tell what it is. -/
def afterName (name : String) (l : Lexeme) (rest : List Lexeme) :
    EStateM.Result SyntaxError.Cause (List Lexeme) Kind :=
  match rest with
  | [] => .ok (.label name) []
  | next :: rest' =>
    match next.token with
    | .assign => (Kind.assign name <$> Expr.parse) rest'
    | .endl => .ok (.label name) (next :: rest')
    | .ident declared =>
      if name = "Label" ∧ Line.ended rest' then .ok (.label declared) rest'
      else (Kind.expr <$> Expr.parse) (l :: rest)
    | _ => (Kind.expr <$> Expr.parse) (l :: rest)

/-- What a statement does, up to its end. -/
def kind : Parser Kind
  | [] => (Kind.expr <$> Expr.parse) []
  | l :: rest =>
    match l.token with
    | .command c => Kind.afterCommand c rest
    | .ident name => afterName name l rest
    | _ => (Kind.expr <$> Expr.parse) (l :: rest)

/-- Reads the line break behind a statement; there is none at the end of the text. -/
def lineBreak : Parser Unit
  | [] => .ok () []
  | l :: rest => if l.token = .endl then .ok () rest else refuse .lineEnd (l :: rest)

/-- A statement with the line break behind it. -/
def stmt (loc : Location) : Parser Stmt := do
  let kind ← kind
  lineBreak
  return ⟨loc, kind⟩

/-- Skips lexemes up to the next line or to a command. -/
def synchronize : List Lexeme → List Lexeme
  | [] => []
  | l :: rest =>
    if l.token = .endl then rest
    else if rest.head?.any fun l => l.token.isCommand then rest
    else synchronize rest

/-- The statements and syntax errors of the lexemes that are left. Every round uses up a lexeme, so
there are at most `bound` of them if no more lexemes than that are left. -/
def statements (eof : Lexeme) : (bound : Nat) → List Lexeme → Parsed
  | _, [] => {}
  | 0, _ => {}
  | bound + 1, l :: rest =>
    if l.token = .endl then statements eof bound rest
    else match stmt l.loc (l :: rest) with
      | .ok s left => { stmts := [s] } ++ statements eof bound left
      | .error cause left =>
        { faults := [⟨left.headD eof, cause⟩] } ++ statements eof bound (synchronize left)

/-- The statements and syntax errors of a text whose last lexeme is `eof`, read in one go. -/
def parse (eof : Lexeme) (lexemes : List Lexeme) : Parsed :=
  statements eof lexemes.length lexemes

end Stream

/-! ### Statements stay in their line -/

namespace Stmt.Kind

variable {l : Lexeme} {name : String} {rest tail : List Lexeme}

/-- Behind a name no lexeme is given back. -/
theorem afterName_suffix : left (afterName name l rest) <:+ l :: rest := by
  have whole := expr_lineLocal.suffix (l :: rest)
  cases rest with
  | nil => exact List.nil_suffix
  | cons second rest =>
      cases token : second.token with
      | assign =>
          have value := (assign_lineLocal name).suffix rest
          simp only [afterName, token]
          exact value.trans ((List.suffix_cons second rest).trans (List.suffix_cons l _))
      | ident declared =>
          cases rest with
          | nil =>
              simp only [afterName, token]
              split
              · exact List.nil_suffix
              · exact whole
          | cons third rest =>
              simp only [afterName, token]
              exact whole
      | _ =>
          simp only [afterName, token]
          exact whole

/-- The two lexemes behind a name are those of the line, or the line ends in front of them. -/
theorem afterName_extend (unbroken : Line.Unbroken (l :: rest)) (ended : Line.ended tail = true) :
    Stream.afterName name l (rest ++ tail) = extend tail (afterName name l rest) := by
  have whole : (Kind.expr <$> Expr.parse) (l :: (rest ++ tail)) =
      extend tail ((Kind.expr <$> Expr.parse) (l :: rest)) :=
    expr_lineLocal.eq_extend unbroken ended
  cases rest with
  | nil =>
      cases tail with
      | nil => rfl
      | cons stop tail =>
          have token : stop.token = .endl := Line.ended_iff.1 ended stop rfl
          simp only [List.nil_append, Stream.afterName, token]
          rfl
  | cons next rest =>
      simp only [Line.Unbroken, List.forall_mem_cons] at unbroken
      obtain ⟨-, inside, unbroken⟩ := unbroken
      generalize token : next.token = t at inside
      cases t with
      | endl => exact absurd rfl inside
      | assign =>
          simp only [List.cons_append, Stream.afterName, afterName, token]
          exact (assign_lineLocal name).eq_extend unbroken ended
      | ident declared =>
          cases rest with
          | nil =>
              simp only [List.cons_append, List.nil_append, Stream.afterName, afterName, token,
                ended, and_true]
              split
              · rfl
              · exact whole
          | cons third rest =>
              have open_ : third.token ≠ .endl := unbroken third List.mem_cons_self
              simp only [List.cons_append, Stream.afterName, afterName, token, Line.ended, open_,
                decide_false, Bool.false_eq_true, and_false, if_false]
              exact whole
      | _ =>
          simp only [List.cons_append, Stream.afterName, afterName, token]
          exact whole

/-- **A statement stays in its line.** Neither the productions of the grammar nor the lookahead
behind a name see whether other lines follow. -/
theorem parse_lineLocal : LineLocal Kind.parse Stream.kind where
  suffix ls := by
    cases ls with
    | nil => exact expr_lineLocal.suffix []
    | cons l rest =>
        rw [Kind.parse]
        split
        · next c _ => exact ((afterCommand_lineLocal c).suffix rest).trans (List.suffix_cons l rest)
        · exact afterName_suffix
        · exact expr_lineLocal.suffix (l :: rest)
  eq_extend {line tail} unbroken ended := by
    cases line with
    | nil =>
        have whole := expr_lineLocal.eq_extend unbroken ended
        cases tail with
        | nil => exact whole
        | cons stop tail =>
            have token : stop.token = .endl := Line.ended_iff.1 ended stop rfl
            simp only [List.nil_append, Stream.kind, Kind.parse, token]
            exact whole
    | cons l rest =>
        cases token : l.token with
        | command c =>
            simp only [List.cons_append, Kind.parse, Stream.kind, token]
            exact (afterCommand_lineLocal c).eq_extend
              (unbroken.of_suffix (List.suffix_cons l rest)) ended
        | ident name =>
            simp only [List.cons_append, Kind.parse, Stream.kind, token]
            exact afterName_extend unbroken ended
        | _ =>
            simp only [List.cons_append, Kind.parse, Stream.kind, token]
            exact expr_lineLocal.eq_extend unbroken ended

end Stmt.Kind

namespace Stmt

variable {loc : Location} {line tail rest : List Lexeme}

/-- A statement that takes its line takes the line break behind it as well. -/
theorem stream_of_ok {s : Stmt} (unbroken : Line.Unbroken line) (ended : Line.ended tail = true)
    (h : Stmt.parse loc line = .ok s rest) : Stream.stmt loc (line ++ tail) = .ok s tail.tail := by
  rw [Stmt.parse, bind_eq_ok_iff] at h
  obtain ⟨k, ls₁, first, h⟩ := h
  obtain ⟨_, ls₂, last, h⟩ := bind_eq_ok_iff.1 h
  obtain ⟨rfl, rfl⟩ := pure_eq_ok_iff.1 h
  obtain rfl : ls₁ = [] := by
    cases ls₁ with
    | nil => rfl
    | cons => cases last
  have same := Kind.parse_lineLocal.eq_extend unbroken ended
  rw [first] at same
  have ends : Stream.lineBreak tail = .ok () tail.tail := by
    cases tail with
    | nil => rfl
    | cons stop tail => rw [Stream.lineBreak, if_pos (Line.ended_iff.1 ended stop rfl)]; rfl
  rw [Stream.stmt, bind_of_ok same, List.nil_append, bind_of_ok ends]
  rfl

/-- A statement gives up at a lexeme of its line, or at the end. -/
theorem suffix_of_error {cause : SyntaxError.Cause} {ls : List Lexeme}
    (h : Stmt.parse loc ls = .error cause rest) : rest <:+ ls := by
  have all (ls : List Lexeme) : left (Stmt.parse loc ls) <:+ ls := by
    refine left_bind_suffix Kind.parse_lineLocal.suffix (fun k => left_bind_suffix ?_ ?_) ls
    · intro ls
      cases ls <;> exact List.suffix_refl _
    · exact fun _ ls => List.suffix_refl ls
  have taken := all ls
  rwa [h] at taken

/-- An error is the same and at the same lexeme whether or not other lines follow. -/
theorem stream_of_error {cause : SyntaxError.Cause} (unbroken : Line.Unbroken line)
    (ended : Line.ended tail = true) (h : Stmt.parse loc line = .error cause rest) :
    Stream.stmt loc (line ++ tail) = .error cause (rest ++ tail) := by
  have same := Kind.parse_lineLocal.eq_extend unbroken ended
  have suffix := Kind.parse_lineLocal.suffix line
  rw [Stmt.parse] at h
  cases first : Kind.parse line with
  | error cause' ls₁ =>
      rw [bind_of_error first] at h
      cases h
      rw [first] at same
      exact bind_of_error same
  | ok k ls₁ =>
      rw [bind_of_ok first] at h
      rw [first] at same suffix
      cases ls₁ with
      | nil => cases h
      | cons l ls₁ =>
          -- the statement is over but its line is not
          cases h
          have inside : l.token ≠ .endl := unbroken.of_suffix suffix l List.mem_cons_self
          have ends : Stream.lineBreak (l :: (ls₁ ++ tail)) =
              .error (.expected .lineEnd) (l :: (ls₁ ++ tail)) := by
            rw [Stream.lineBreak, if_neg inside]
            rfl
          rw [Stream.stmt, bind_of_ok same]
          exact bind_of_error ends

end Stmt

/-! ### Going on behind an error -/

namespace Stream

variable {rest tail : List Lexeme}

/-- Skipping takes the offending lexeme. -/
theorem synchronize_suffix (ls : List Lexeme) : synchronize ls <:+ ls.tail := by
  induction ls with
  | nil => exact List.suffix_refl []
  | cons l rest ih =>
      rw [synchronize, List.tail_cons]
      split
      · exact List.suffix_refl rest
      · split
        · exact List.suffix_refl rest
        · exact ih.trans (List.tail_suffix rest)

/-- A fault takes at least the lexeme it was found at. -/
theorem length_synchronize_le (ls : List Lexeme) : (synchronize ls).length ≤ ls.length - 1 := by
  rw [← List.length_tail]
  exact (synchronize_suffix ls).length_le

/-- At the end of a line, the next line is where reading goes on. -/
theorem synchronize_of_ended (ended : Line.ended tail = true) : synchronize tail = tail.tail := by
  cases tail with
  | nil => rfl
  | cons stop tail =>
      rw [synchronize, if_pos (Line.ended_iff.1 ended stop rfl)]
      rfl

/-- Skipping stops at the command where reading goes on in the line, or behind the line. -/
theorem synchronize_append (unbroken : Line.Unbroken rest) (ended : Line.ended tail = true) :
    synchronize (rest ++ tail) =
      if Line.resume rest = [] then tail.tail else Line.resume rest ++ tail := by
  induction rest with
  | nil => simpa [Line.resume] using synchronize_of_ended ended
  | cons l rest ih =>
      simp only [Line.Unbroken, List.forall_mem_cons] at unbroken
      rw [List.cons_append, synchronize, if_neg unbroken.1]
      cases rest with
      | nil =>
          have behind : ¬tail.head?.any (fun l => l.token.isCommand) = true := by
            cases tail with
            | nil => simp
            | cons stop tail => simp [Line.ended_iff.1 ended stop rfl, Token.isCommand]
          rw [List.nil_append, if_neg behind, synchronize_of_ended ended]
          rfl
      | cons second rest =>
          by_cases command : second.token.isCommand
          · simp [Line.resume, command]
          · have same : Line.resume (l :: second :: rest) = Line.resume (second :: rest) := by
              simp [Line.resume, command]
            rw [if_neg (by simpa using command), ih unbroken.2, same]

end Stream

namespace Line

variable {ls : List Lexeme}

/-- In front of every list of lexemes is a line. -/
theorem exists_append_ended (ls : List Lexeme) :
    ∃ line tail, ls = line ++ tail ∧ Unbroken line ∧ ended tail = true := by
  induction ls with
  | nil => exact ⟨[], [], rfl, by simp [Unbroken], rfl⟩
  | cons l ls ih =>
      by_cases stop : l.token = .endl
      · exact ⟨[], l :: ls, rfl, by simp [Unbroken], by simpa [ended] using stop⟩
      · obtain ⟨line, tail, rfl, unbroken, ends⟩ := ih
        refine ⟨l :: line, tail, rfl, ?_, ends⟩
        simp only [Unbroken, List.forall_mem_cons]
        exact ⟨stop, unbroken⟩

/-- What is read on from stands behind the fault. -/
theorem resume_suffix (rest : List Lexeme) : resume rest <:+ rest.tail :=
  List.dropWhile_suffix _

/-- Every error uses up a lexeme, so a bound beyond their number does not matter; and of the line
itself, only its end does. -/
theorem parseRest_eq_of_le {line line' : List Lexeme} {stop : Lexeme} {bound bound' : Nat}
    (h : ls.length ≤ bound) (h' : ls.length ≤ bound') :
    parseRest ⟨line, stop⟩ bound ls = parseRest ⟨line', stop⟩ bound' ls := by
  induction bound generalizing bound' ls with
  | zero =>
      obtain rfl : ls = [] := List.eq_nil_of_length_eq_zero (Nat.le_zero.1 h)
      rw [parseRest, parseRest]
  | succ bound ih =>
      cases ls with
      | nil => rw [parseRest, parseRest]
      | cons l rest =>
          obtain ⟨bound', rfl⟩ : ∃ b, bound' = b + 1 := ⟨bound' - 1, by simp at h'; omega⟩
          rw [parseRest, parseRest]
          cases read : Stmt.parse l.loc (l :: rest) with
          | ok s left => rfl
          | error cause left =>
              have taken := (Stmt.suffix_of_error read).length_le
              have shorter := (resume_suffix left).length_le
              simp only [List.length_cons, List.length_tail] at h h' taken shorter
              have others := @ih (resume left) bound' (by omega) (by omega)
              simp only [others, SyntaxError.ofRest, current]

end Line

/-! ### Whole programs -/

variable {eof : Lexeme}

namespace Program

variable {line rest tail : List Lexeme}

/-- A program is its first line, with the line break or the end of the text behind it, and what
follows. -/
theorem parse_append_ended (unbroken : Line.Unbroken line) (ended : Line.ended tail = true) :
    Program.parse eof (line ++ tail) =
      Line.parse ⟨line, tail.headD eof⟩ ++ Program.parse eof tail.tail := by
  cases tail with
  | nil =>
      rw [List.append_nil, parse_last unbroken]
      exact (Parsed.append_empty _).symm
  | cons stop tail => exact parse_cons unbroken (Line.ended_iff.1 ended stop rfl)

/-- Behind an error, what is left of the line is read and then the other lines are. -/
theorem parse_synchronize (unbroken : Line.Unbroken rest) (ended : Line.ended tail = true) :
    Program.parse eof (Stream.synchronize (rest ++ tail)) =
      Line.parse ⟨Line.resume rest, tail.headD eof⟩ ++ Program.parse eof tail.tail := by
  rw [Stream.synchronize_append unbroken ended]
  split
  · next finished =>
    rw [finished]
    rfl
  · have inside := (Line.resume_suffix rest).trans (List.tail_suffix rest)
    exact parse_append_ended (unbroken.of_suffix inside) ended

variable {l : Lexeme} {left : List Lexeme}

/-- A line that is a statement is read before the others. -/
theorem parse_of_ok {s : Stmt} (unbroken : Line.Unbroken (l :: line))
    (ended : Line.ended tail = true) (read : Stmt.parse l.loc (l :: line) = .ok s left) :
    Program.parse eof (l :: line ++ tail) = { stmts := [s] } ++ Program.parse eof tail.tail := by
  rw [parse_append_ended unbroken ended, Line.parse, List.length_cons, Line.parseRest]
  simp only [read]

/-- A line with an error is read like a text that starts where reading goes on, with the error
before everything else. -/
theorem parse_of_error {cause : SyntaxError.Cause} (unbroken : Line.Unbroken (l :: line))
    (ended : Line.ended tail = true) (read : Stmt.parse l.loc (l :: line) = .error cause left) :
    Program.parse eof (l :: line ++ tail) =
      { faults := [⟨(left ++ tail).headD eof, cause⟩] } ++
        Program.parse eof (Stream.synchronize (left ++ tail)) := by
  have suffix := Stmt.suffix_of_error read
  have enough : (Line.resume left).length ≤ line.length := by
    have taken := suffix.length_le
    have shorter := (Line.resume_suffix left).length_le
    simp only [List.length_cons, List.length_tail] at taken shorter
    omega
  have found : Line.current ⟨l :: line, tail.headD eof⟩ left = (left ++ tail).headD eof := by
    cases left <;> rfl
  have others : Line.parseRest ⟨l :: line, tail.headD eof⟩ line.length (Line.resume left) =
      Line.parse ⟨Line.resume left, tail.headD eof⟩ :=
    Line.parseRest_eq_of_le enough (Nat.le_refl _)
  rw [parse_append_ended unbroken ended, Line.parse, List.length_cons, Line.parseRest,
    parse_synchronize (unbroken.of_suffix suffix) ended]
  simp only [read, others, SyntaxError.ofRest, found]
  rfl

end Program

namespace Stream

/-- Each round does to the text what reading it line by line does, and leaves a shorter one. -/
theorem statements_eq {bound : Nat} {ls : List Lexeme} (h : ls.length ≤ bound) :
    statements eof bound ls = Program.parse eof ls := by
  induction bound generalizing ls with
  | zero =>
      obtain rfl : ls = [] := List.eq_nil_of_length_eq_zero (Nat.le_zero.1 h)
      rfl
  | succ bound ih =>
      cases ls with
      | nil => rfl
      | cons l ls =>
          rw [List.length_cons] at h
          by_cases blank : l.token = .endl
          · have empty : Line.Unbroken [] := by simp [Line.Unbroken]
            rw [statements, if_pos blank, ih (by omega)]
            exact (Program.parse_cons empty blank).symm
          · obtain ⟨line, tail, rfl, unbroken, ended⟩ := Line.exists_append_ended ls
            have unbroken' : Line.Unbroken (l :: line) := by
              simp only [Line.Unbroken, List.forall_mem_cons]
              exact ⟨blank, unbroken⟩
            rw [List.length_append] at h
            rw [statements, if_neg blank, ← List.cons_append]
            cases read : Stmt.parse l.loc (l :: line) with
            | ok s left =>
                have shorter : tail.tail.length ≤ bound := by
                  rw [List.length_tail]
                  omega
                rw [Program.parse_of_ok unbroken' ended read, ← ih shorter]
                simp only [Stmt.stream_of_ok unbroken' ended read]
            | error cause left =>
                have taken := (Stmt.suffix_of_error read).length_le
                have shorter : (synchronize (left ++ tail)).length ≤ bound := by
                  have skipped := length_synchronize_le (left ++ tail)
                  simp only [List.length_cons, List.length_append] at taken skipped
                  omega
                rw [Program.parse_of_error unbroken' ended read, ← ih shorter]
                simp only [Stmt.stream_of_error unbroken' ended read]

/-- **Reading in one go is reading line by line.** -/
theorem parse_eq (eof : Lexeme) (ls : List Lexeme) : Stream.parse eof ls = Program.parse eof ls :=
  statements_eq (Nat.le_refl _)

end Stream

namespace Program

/-- What is read from a text that ends with a line break does not depend on what follows. -/
theorem parse_append_cons {stop : Lexeme} (ends : stop.token = .endl) (eof eof' : Lexeme)
    (before after : List Lexeme) :
    Program.parse eof (before ++ stop :: after) =
      Program.parse eof' (before ++ [stop]) ++ Program.parse eof after := by
  induction h : before.length using Nat.strongRecOn generalizing before with
  | ind n ih =>
      obtain ⟨line, tail, rfl, unbroken, ended⟩ := Line.exists_append_ended before
      cases tail with
      | nil =>
          have last : Program.parse eof' [] = {} := rfl
          rw [List.append_nil, parse_cons unbroken ends, parse_cons unbroken ends, last,
            Parsed.append_empty]
      | cons stop' tail =>
          have ends' : stop'.token = .endl := Line.ended_iff.1 ended stop' rfl
          have others := ih tail.length (by simp at h; omega) tail rfl
          simp only [List.append_assoc, List.cons_append]
          rw [parse_cons unbroken ends', parse_cons unbroken ends', others, Parsed.append_assoc]

/-- **Recovery is local to lines.** Let a text have a line break somewhere. What is read from it is
what is read from the part up to the line break, wherever that text is said to end, and then what is
read from the part behind it: the statements are, and so are the syntax errors, whatever errors
there are in either part. And it does not matter that lines are taken apart before: reading in one
go gives the same. -/
theorem recovery_is_line_local {stop : Lexeme} (ends : stop.token = .endl) (eof eof' : Lexeme)
    (before after : List Lexeme) :
    (Program.parse eof (before ++ stop :: after)).stmts =
        (Program.parse eof' (before ++ [stop])).stmts ++ (Program.parse eof after).stmts ∧
      (Program.parse eof (before ++ stop :: after)).faults =
        (Program.parse eof' (before ++ [stop])).faults ++ (Program.parse eof after).faults ∧
      ∀ eof ls, Stream.parse eof ls = Program.parse eof ls := by
  have whole := parse_append_cons ends eof eof' before after
  refine ⟨?_, ?_, Stream.parse_eq⟩
  · rw [whole]
    rfl
  · rw [whole]
    rfl

/-- The lexemes of `1 1 Fill()`: an error, and a command where reading goes on. -/
def strayOne : List Lexeme :=
  [⟨.int .one, "1", 0, 1, ⟨1, 1⟩⟩, ⟨.int .one, "1", 2, 3, ⟨1, 3⟩⟩,
    ⟨.command .fill, "Fill", 4, 8, ⟨1, 5⟩⟩, ⟨.openParen, "(", 8, 9, ⟨1, 9⟩⟩,
    ⟨.closeParen, ")", 9, 10, ⟨1, 10⟩⟩]

/-- The lexemes of `Size(`, which ends too early. -/
def unclosedSize : List Lexeme :=
  [⟨.command .size, "Size", 11, 15, ⟨2, 1⟩⟩, ⟨.openParen, "(", 15, 16, ⟨2, 5⟩⟩]

/-- The line break between the two. -/
def lineFeed : Lexeme :=
  ⟨.endl, "\n", 10, 11, ⟨1, 11⟩⟩

/-- The end of the text. -/
def textEnd : Lexeme :=
  ⟨.eof, "", 16, 16, ⟨2, 6⟩⟩

/-- Two lines have an error each, and the statement behind the first error is kept. -/
theorem strayOne_and_unclosedSize_are_apart :
    (Program.parse textEnd (strayOne ++ lineFeed :: unclosedSize)).stmts =
        (Program.parse lineFeed (strayOne ++ [lineFeed])).stmts ++
          (Program.parse textEnd unclosedSize).stmts ∧
      (Program.parse textEnd (strayOne ++ lineFeed :: unclosedSize)).faults =
        (Program.parse lineFeed (strayOne ++ [lineFeed])).faults ++
          (Program.parse textEnd unclosedSize).faults ∧
      (Program.parse lineFeed (strayOne ++ [lineFeed])).stmts = [⟨⟨1, 5⟩, .fill⟩] ∧
      (Program.parse lineFeed (strayOne ++ [lineFeed])).faults.map (fun e => e.found.loc) =
        [⟨1, 3⟩] ∧
      (Program.parse textEnd unclosedSize).faults.map (fun e => e.found.loc) = [⟨2, 6⟩] := by
  obtain ⟨stmts, faults, -⟩ :=
    recovery_is_line_local (show lineFeed.token = .endl from rfl) textEnd lineFeed strayOne
      unclosedSize
  exact ⟨stmts, faults, rfl, rfl, rfl⟩

end Program

end PenScript
