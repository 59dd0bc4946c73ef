import PenScript.Proofs.Lines
import PenScript.Proofs.ParserCompleteness

/-!
# Written programs are read back

How statements are written, said without the parser, and what becomes of a program that is written
so, one statement a line: it is read without errors, and as the same program up to places.

Two statements look alike at their start: a line that begins with a name may be an assignment, a
label or an expression. The parser looks at no more than two lexemes behind the name to tell them
apart; `Expr.Yields.second` is what it can rely on. A name alone is a label, so the statement that
evaluates a variable cannot be written.

## Main definitions

* `Stmt.Kind.Spelled`, `Program.Spelled` — lexemes that write a statement, a program;
* `Program.unplaced` — a program without its places.

## Main results

* `Stmt.Kind.parse_of_spelled`: a written statement is read;
* `Program.written_programs_are_read_back`: so is a written program.
-/

namespace PenScript

open PenScript.Parser

variable {l : Lexeme} {ls rest : List Lexeme}

/-! ### How statements are written -/

namespace Stmt.Kind

/-- The lexemes, in order, write the statement, wherever its expressions stand. -/
inductive Spelled : Kind → List Lexeme → Prop
  | command {k : Kind} {c : Command} {w o cl : Lexeme} {ls : List Lexeme}
      (named : k.command? = some c) (other : c ≠ .goTo) (word : w.token = .command c)
      (opening : o.token = .openParen) (items : Expr.Separated Expr.Spelled k.args ls)
      (closing : cl.token = .closeParen) : Spelled k (w :: o :: (ls ++ [cl]))
  | goTo {target : String} {e : Expr} {w lb t rb o cl : Lexeme} {ls : List Lexeme}
      (word : w.token = .command .goTo) (left : lb.token = .openBracket)
      (name : t.token = .ident target) (right : rb.token = .closeBracket)
      (opening : o.token = .openParen) (condition : e.Spelled ls)
      (closing : cl.token = .closeParen) :
      Spelled (.goTo target e) (w :: lb :: t :: rb :: o :: (ls ++ [cl]))
  | assign {x : String} {e : Expr} {n a : Lexeme} {ls : List Lexeme} (name : n.token = .ident x)
      (arrow : a.token = .assign) (value : e.Spelled ls) : Spelled (.assign x e) (n :: a :: ls)
  | label {x : String} {n : Lexeme} (name : n.token = .ident x) : Spelled (.label x) [n]
  | declared {x : String} {w n : Lexeme} (word : w.token = .ident "Label")
      (name : n.token = .ident x) : Spelled (.label x) [w, n]
  | expr {e : Expr} {ls : List Lexeme} (whole : e.Spelled ls) : Spelled (.expr e) ls

/-- The statement with other expressions in it. -/
def mapArgs (f : Expr → Expr) : Kind → Kind
  | spawn x y => spawn (f x) (f y)
  | respawn x y => respawn (f x) (f y)
  | color e => color (f e)
  | size e => size (f e)
  | drawLine dx dy d => drawLine (f dx) (f dy) (f d)
  | drawCircle dx dy r => drawCircle (f dx) (f dy) (f r)
  | drawRectangle dx dy d w h => drawRectangle (f dx) (f dy) (f d) (f w) (f h)
  | fill => fill
  | filling e => filling (f e)
  | assign x e => assign x (f e)
  | label x => label x
  | goTo x e => goTo x (f e)
  | expr e => expr (f e)

/-- The statement with all its expressions at the start of the text. -/
def unplaced (k : Kind) : Kind :=
  k.mapArgs Expr.unplaced

end Stmt.Kind

/-- The statement at the start of the text, with all its expressions. -/
def Stmt.unplaced (s : Stmt) : Stmt :=
  ⟨.start, s.kind.unplaced⟩

/-- The program with all its places at the start of the text. -/
def Program.unplaced (p : Program) : Program :=
  ⟨p.stmts.map Stmt.unplaced⟩

/-- The lexemes write the statements, one a line. -/
inductive Stmt.SpelledLines : List Stmt → List Lexeme → Prop
  | nil : SpelledLines [] []
  | cons {s : Stmt} {ss : List Stmt} {ls rest : List Lexeme} {stop : Lexeme}
      (first : s.kind.Spelled ls) (ends : stop.token = .endl) (others : SpelledLines ss rest) :
      SpelledLines (s :: ss) (ls ++ stop :: rest)

/-- The lexemes write the program, one statement a line. -/
def Program.Spelled (p : Program) (ls : List Lexeme) : Prop :=
  Stmt.SpelledLines p.stmts ls

/-! ### Lines without line breaks -/

namespace Expr

variable {starts : Location → Lexeme → Prop} {e : Expr}

/-- A list of items is on one line if every item is. -/
theorem Separated.unbroken {item : Expr → List Lexeme → Prop} {es : List Expr}
    (each : ∀ e ∈ es, ∀ {ls}, item e ls → Line.Unbroken ls) (h : Separated item es ls) :
    Line.Unbroken ls := by
  induction h with
  | nil => simp [Line.Unbroken]
  | one only => exact each _ (by simp) only
  | more first token others ih =>
      have one := each _ (by simp) first
      have more := ih fun e he => each e (List.mem_cons_of_mem _ he)
      simp only [Line.Unbroken, List.forall_mem_append, List.forall_mem_cons, token]
      exact ⟨one, by simp, more⟩

/-- A tree is written in one line. -/
theorem Yields.unbroken (h : e.Yields starts ls) : Line.Unbroken ls := by
  induction e using inductionOn generalizing ls with
  | lit loc v =>
      cases h with
      | lit _ token => cases v <;> simp [Line.Unbroken, token, Token.ofValue]
  | var loc x =>
      cases h with
      | var _ token => simp [Line.Unbroken, token]
  | call loc f args ih =>
      cases h with
      | call _ token opening items closing =>
          have inner := items.unbroken fun a ha _ => ih a ha
          simp only [Line.Unbroken, List.forall_mem_cons, List.forall_mem_append, token, opening,
            closing]
          exact ⟨by simp, by simp, inner, by simp⟩
  | group loc e ih =>
      cases h with
      | group _ brackets inner =>
          simp only [Line.Unbroken, List.forall_mem_cons, List.forall_mem_append]
          exact ⟨brackets.ne_endl.1, ih inner, brackets.ne_endl.2, by simp⟩
  | unary loc op e ih =>
      cases h with
      | unary _ token operand =>
          simp only [Line.Unbroken, List.forall_mem_cons, token]
          exact ⟨by cases op <;> simp [UnaryOp.token], ih operand⟩
  | binary loc op a b iha ihb =>
      cases h with
      | binary _ _ left token right =>
          simp only [Line.Unbroken, List.forall_mem_cons, List.forall_mem_append, token]
          exact ⟨iha left, by simp, ihb right⟩

/-- A tree that starts with a name is that name alone, or a parenthesis or an operator follows. -/
theorem Yields.second {x : String} (h : e.Yields starts (l :: rest)) (token : l.token = .ident x) :
    (rest = [] ∧ ∃ loc, e = Expr.var loc x) ∨
      ∃ next rest', rest = next :: rest' ∧
        (next.token = .openParen ∨ ∃ op, next.token = .op op) := by
  generalize whole : l :: rest = ls at h
  induction e using inductionOn generalizing ls rest with
  | lit loc v =>
      cases h with
      | lit _ literal =>
          cases whole
          rw [token] at literal
          cases v <;> cases literal
  | var loc y =>
      cases h with
      | var _ name =>
          cases whole
          rw [token] at name
          cases name
          exact .inl ⟨rfl, loc, rfl⟩
  | call loc f args =>
      cases h with
      | call _ _ opening =>
          cases whole
          exact .inr ⟨_, _, rfl, .inl opening⟩
  | group loc e =>
      cases h with
      | group _ brackets =>
          cases whole
          rw [token] at brackets
          cases brackets
  | unary loc op e =>
      cases h with
      | unary _ sign =>
          cases whole
          rw [token] at sign
          cases op <;> cases sign
  | binary loc op a b iha =>
      cases h with
      | @binary _ _ _ _ _ o xs ys _ _ left operator =>
          cases xs with
          | nil => exact absurd left.length_pos (by simp)
          | cons l' xs =>
              cases whole
              obtain ⟨rfl, -⟩ | ⟨next, rest', rfl, what⟩ := iha _ rfl left
              · exact .inr ⟨o, ys, rfl, .inr ⟨op, operator⟩⟩
              · exact .inr ⟨next, rest' ++ o :: ys, rfl, what⟩

end Expr

/-! ### Reading a statement -/

namespace Stmt.Kind

open PenScript.Expr (Readable Ends ends_cons ends_nil)

section Arguments

variable {o cl comma : Lexeme} {a b d w t : Expr}

/-- At a comma an expression ends. -/
theorem ends_comma (token : comma.token = .comma) : Ends 0 (comma :: rest) :=
  ends_cons token (by simp) (by simp)

/-- At a closing bracket an expression ends. -/
theorem ends_closing (closing : cl.token = .closeParen) : Ends 0 (cl :: rest) :=
  ends_cons closing (by simp) (by simp)

variable (c : Command)

/-- A first argument that was spelled is read. -/
theorem firstArg_of_spelled (readable : a.Readable) (opening : o.token = .openParen)
    (spelled : a.Spelled ls) (ends : Ends 0 rest) :
    ∃ a', a'.unplaced = a.unplaced ∧ firstArg c (o :: (ls ++ rest)) = .ok a' rest := by
  obtain ⟨a', same, h⟩ := readable.parse spelled ends
  exact ⟨a', same, (bind_of_ok (expect_of_eq opening)).trans h⟩

/-- A further argument that was spelled is read. -/
theorem nextArg_of_spelled (readable : a.Readable) (token : comma.token = .comma)
    (spelled : a.Spelled ls) (ends : Ends 0 rest) :
    ∃ a', a'.unplaced = a.unplaced ∧ nextArg c (comma :: (ls ++ rest)) = .ok a' rest := by
  obtain ⟨a', same, h⟩ := readable.parse spelled ends
  exact ⟨a', same, (bind_of_ok (expect_of_eq token)).trans h⟩

/-- A closing bracket ends the arguments. -/
theorem argsEnd_of_closing (closing : cl.token = .closeParen) :
    argsEnd c (cl :: rest) = .ok () rest :=
  expect_of_eq closing

/-- A command of one argument that was spelled is read. -/
theorem unaryCommand_of_spelled (make : Expr → Kind) (readable : ∀ e ∈ [a], e.Readable)
    (opening : o.token = .openParen) (items : Expr.Separated Expr.Spelled [a] ls)
    (closing : cl.token = .closeParen) :
    ∃ a', a'.unplaced = a.unplaced ∧
      unaryCommand c make (o :: (ls ++ [cl])) = .ok (make a') [] := by
  simp only [List.forall_mem_cons] at readable
  obtain ⟨ra, -⟩ := readable
  obtain _ | ⟨wa⟩ | _ := items
  obtain ⟨a', sameA, ha⟩ := firstArg_of_spelled c ra opening wa (ends_closing closing)
  refine ⟨a', sameA, ?_⟩
  rw [unaryCommand, bind_of_ok ha, bind_of_ok (argsEnd_of_closing c closing)]
  rfl

/-- A command of two arguments that were spelled is read. -/
theorem binaryCommand_of_spelled (make : Expr → Expr → Kind) (readable : ∀ e ∈ [a, b], e.Readable)
    (opening : o.token = .openParen) (items : Expr.Separated Expr.Spelled [a, b] ls)
    (closing : cl.token = .closeParen) :
    ∃ a' b', a'.unplaced = a.unplaced ∧ b'.unplaced = b.unplaced ∧
      binaryCommand c make (o :: (ls ++ [cl])) = .ok (make a' b') [] := by
  simp only [List.forall_mem_cons] at readable
  obtain ⟨ra, rb, -⟩ := readable
  obtain _ | _ | ⟨wa, m₁, _ | ⟨wb⟩ | _⟩ := items
  obtain ⟨a', sameA, ha⟩ := firstArg_of_spelled c ra opening wa (ends_comma m₁)
  obtain ⟨b', sameB, hb⟩ := nextArg_of_spelled c rb m₁ wb (ends_closing closing)
  refine ⟨a', b', sameA, sameB, ?_⟩
  simp only [List.append_assoc, List.cons_append]
  rw [binaryCommand, bind_of_ok ha, bind_of_ok hb, bind_of_ok (argsEnd_of_closing c closing)]
  rfl

/-- A command of three arguments that were spelled is read. -/
theorem ternaryCommand_of_spelled (make : Expr → Expr → Expr → Kind)
    (readable : ∀ e ∈ [a, b, d], e.Readable) (opening : o.token = .openParen)
    (items : Expr.Separated Expr.Spelled [a, b, d] ls) (closing : cl.token = .closeParen) :
    ∃ a' b' d', a'.unplaced = a.unplaced ∧ b'.unplaced = b.unplaced ∧ d'.unplaced = d.unplaced ∧
      ternaryCommand c make (o :: (ls ++ [cl])) = .ok (make a' b' d') [] := by
  simp only [List.forall_mem_cons] at readable
  obtain ⟨ra, rb, rd, -⟩ := readable
  obtain _ | _ | ⟨wa, m₁, _ | _ | ⟨wb, m₂, _ | ⟨wd⟩ | _⟩⟩ := items
  obtain ⟨a', sameA, ha⟩ := firstArg_of_spelled c ra opening wa (ends_comma m₁)
  obtain ⟨b', sameB, hb⟩ := nextArg_of_spelled c rb m₁ wb (ends_comma m₂)
  obtain ⟨d', sameD, hd⟩ := nextArg_of_spelled c rd m₂ wd (ends_closing closing)
  refine ⟨a', b', d', sameA, sameB, sameD, ?_⟩
  simp only [List.append_assoc, List.cons_append]
  rw [ternaryCommand, bind_of_ok ha, bind_of_ok hb, bind_of_ok hd,
    bind_of_ok (argsEnd_of_closing c closing)]
  rfl

/-- The command of five arguments that were spelled is read. -/
theorem drawRectangle_of_spelled (readable : ∀ e ∈ [a, b, d, w, t], e.Readable)
    (opening : o.token = .openParen) (items : Expr.Separated Expr.Spelled [a, b, d, w, t] ls)
    (closing : cl.token = .closeParen) :
    ∃ a' b' d' w' t', a'.unplaced = a.unplaced ∧ b'.unplaced = b.unplaced ∧
      d'.unplaced = d.unplaced ∧ w'.unplaced = w.unplaced ∧ t'.unplaced = t.unplaced ∧
      afterCommand .drawRectangle (o :: (ls ++ [cl])) = .ok (drawRectangle a' b' d' w' t') [] := by
  simp only [List.forall_mem_cons] at readable
  obtain ⟨ra, rb, rd, rw', rt, -⟩ := readable
  obtain _ | _ | ⟨wa, m₁, _ | _ | ⟨wb, m₂, others⟩⟩ := items
  obtain _ | _ | ⟨wd, m₃, _ | _ | ⟨ww, m₄, _ | ⟨wt⟩ | _⟩⟩ := others
  obtain ⟨a', sameA, ha⟩ := firstArg_of_spelled .drawRectangle ra opening wa (ends_comma m₁)
  obtain ⟨b', sameB, hb⟩ := nextArg_of_spelled .drawRectangle rb m₁ wb (ends_comma m₂)
  obtain ⟨d', sameD, hd⟩ := nextArg_of_spelled .drawRectangle rd m₂ wd (ends_comma m₃)
  obtain ⟨w', sameW, hw⟩ := nextArg_of_spelled .drawRectangle rw' m₃ ww (ends_comma m₄)
  obtain ⟨t', sameT, ht⟩ := nextArg_of_spelled .drawRectangle rt m₄ wt (ends_closing closing)
  refine ⟨a', b', d', w', t', sameA, sameB, sameD, sameW, sameT, ?_⟩
  simp only [List.append_assoc, List.cons_append]
  rw [afterCommand, bind_of_ok ha, bind_of_ok hb, bind_of_ok hd, bind_of_ok hw, bind_of_ok ht,
    bind_of_ok (argsEnd_of_closing .drawRectangle closing)]
  rfl

/-- A command is read behind its word. -/
theorem afterCommand_of_spelled {k : Kind} (named : k.command? = some c) (other : c ≠ .goTo)
    (readable : ∀ e ∈ k.args, e.Readable) (opening : o.token = .openParen)
    (items : Expr.Separated Expr.Spelled k.args ls) (closing : cl.token = .closeParen) :
    ∃ k', k'.unplaced = k.unplaced ∧ afterCommand c (o :: (ls ++ [cl])) = .ok k' [] := by
  cases k with
  | spawn x y =>
      cases named
      obtain ⟨x', y', sameX, sameY, h⟩ :=
        binaryCommand_of_spelled .spawn .spawn readable opening items closing
      exact ⟨.spawn x' y', by simp [unplaced, mapArgs, sameX, sameY], h⟩
  | respawn x y =>
      cases named
      obtain ⟨x', y', sameX, sameY, h⟩ :=
        binaryCommand_of_spelled .respawn .respawn readable opening items closing
      exact ⟨.respawn x' y', by simp [unplaced, mapArgs, sameX, sameY], h⟩
  | color e =>
      cases named
      obtain ⟨e', same, h⟩ := unaryCommand_of_spelled .color .color readable opening items closing
      exact ⟨.color e', by simp [unplaced, mapArgs, same], h⟩
  | size e =>
      cases named
      obtain ⟨e', same, h⟩ := unaryCommand_of_spelled .size .size readable opening items closing
      exact ⟨.size e', by simp [unplaced, mapArgs, same], h⟩
  | filling e =>
      cases named
      obtain ⟨e', same, h⟩ :=
        unaryCommand_of_spelled .filling .filling readable opening items closing
      exact ⟨.filling e', by simp [unplaced, mapArgs, same], h⟩
  | drawLine dx dy d =>
      cases named
      obtain ⟨dx', dy', d', sameX, sameY, same, h⟩ :=
        ternaryCommand_of_spelled .drawLine .drawLine readable opening items closing
      exact ⟨.drawLine dx' dy' d', by simp [unplaced, mapArgs, sameX, sameY, same], h⟩
  | drawCircle dx dy r =>
      cases named
      obtain ⟨dx', dy', r', sameX, sameY, same, h⟩ :=
        ternaryCommand_of_spelled .drawCircle .drawCircle readable opening items closing
      exact ⟨.drawCircle dx' dy' r', by simp [unplaced, mapArgs, sameX, sameY, same], h⟩
  | drawRectangle dx dy d w t =>
      cases named
      obtain ⟨dx', dy', d', w', t', sameX, sameY, sameD, sameW, sameT, h⟩ :=
        drawRectangle_of_spelled readable opening items closing
      exact ⟨.drawRectangle dx' dy' d' w' t',
        by simp [unplaced, mapArgs, sameX, sameY, sameD, sameW, sameT], h⟩
  | fill =>
      cases named
      cases items with
      | nil =>
          refine ⟨.fill, rfl, ?_⟩
          rw [afterCommand, bind_of_ok (expect_of_eq opening), List.nil_append,
            bind_of_ok (argsEnd_of_closing .fill closing)]
          rfl
  | goTo target e =>
      cases named
      exact absurd rfl other
  | assign x e => cases named
  | label x => cases named
  | expr e => cases named

/-- A jump is read behind its word. -/
theorem jump_of_spelled {target : String} {e : Expr} {lb n rb : Lexeme} (readable : e.Readable)
    (left : lb.token = .openBracket) (name : n.token = .ident target)
    (right : rb.token = .closeBracket) (opening : o.token = .openParen) (spelled : e.Spelled ls)
    (closing : cl.token = .closeParen) :
    ∃ e', e'.unplaced = e.unplaced ∧
      jump (lb :: n :: rb :: o :: (ls ++ [cl])) = .ok (.goTo target e') [] := by
  obtain ⟨e', same, h⟩ := readable.parse spelled (ends_closing closing)
  have label : labelName (n :: rb :: o :: (ls ++ [cl])) = .ok target (rb :: o :: (ls ++ [cl])) := by
    simp only [labelName, name]
  refine ⟨e', same, ?_⟩
  rw [jump, bind_of_ok (expect_of_eq left), bind_of_ok label, bind_of_ok (expect_of_eq right),
    bind_of_ok (expect_of_eq opening), bind_of_ok h, bind_of_ok (expect_of_eq closing)]
  rfl

end Arguments

/-- An expression that is a statement is read as one, unless it is a name alone. -/
theorem parse_of_spelled_expr {e : Expr} (readable : e.Readable) (spelled : e.Spelled ls)
    (notBare : ∀ loc x, e ≠ .var loc x) :
    ∃ e', e'.unplaced = e.unplaced ∧ Kind.parse ls = .ok (.expr e') [] := by
  obtain ⟨e', same, h⟩ := readable.parse spelled ends_nil
  rw [List.append_nil] at h
  refine ⟨e', same, ?_⟩
  obtain ⟨first, head, start⟩ := spelled.startsOperand
  obtain ⟨rest, rfl⟩ := List.head?_eq_some_iff.1 head
  rw [Kind.parse]
  split
  · next c token =>
    rw [token] at start
    cases start
  · next name token =>
    obtain ⟨-, loc, rfl⟩ | ⟨next, rest', rfl, what⟩ := spelled.second token
    · exact absurd rfl (notBare loc name)
    · -- neither an arrow nor a second name follows
      obtain what | ⟨op, what⟩ := what
      · simp only [afterName, what]
        exact map_of_ok h
      · simp only [afterName, what]
        exact map_of_ok h
  · exact map_of_ok h

/-- **A written statement is read.** -/
theorem parse_of_spelled {k : Kind} (readable : ∀ e ∈ k.args, e.Readable)
    (notBare : ∀ loc x, k ≠ .expr (.var loc x)) (spelled : k.Spelled ls) :
    ∃ k', k'.unplaced = k.unplaced ∧ Kind.parse ls = .ok k' [] := by
  cases spelled with
  | @command _ c w o cl inner named other word opening items closing =>
      obtain ⟨k', same, h⟩ := afterCommand_of_spelled c named other readable opening items closing
      exact ⟨k', same, by simp only [Kind.parse, word, h]⟩
  | @goTo target e w lb t rb o cl inner word left name right opening condition closing =>
      obtain ⟨e', same, h⟩ :=
        jump_of_spelled (readable e (by simp [args])) left name right opening condition closing
      exact ⟨.goTo target e', by simp [unplaced, mapArgs, same],
        by simp only [Kind.parse, word, afterCommand, h]⟩
  | @assign x e n a inner name arrow value =>
      obtain ⟨e', same, h⟩ := (readable e (by simp [args])).parse value ends_nil
      rw [List.append_nil] at h
      refine ⟨.assign x e', by simp [unplaced, mapArgs, same], ?_⟩
      simp only [Kind.parse, name, afterName, arrow]
      exact map_of_ok h
  | @label x n name => exact ⟨.label x, rfl, by simp only [Kind.parse, name, afterName]⟩
  | @declared x w n word name =>
      exact ⟨.label x, rfl, by simp only [Kind.parse, word, afterName, name, if_pos]⟩
  | @expr e inner whole =>
      obtain ⟨e', same, h⟩ := parse_of_spelled_expr (readable e (by simp [args])) whole
        fun loc x bare => notBare loc x (bare ▸ rfl)
      exact ⟨.expr e', by simp [unplaced, mapArgs, same], h⟩

/-- A statement is written from some first lexeme on. -/
theorem Spelled.cons {k : Kind} (spelled : k.Spelled ls) : ∃ first rest, ls = first :: rest := by
  cases spelled with
  | expr whole =>
      obtain ⟨first, head, -⟩ := whole.head
      obtain ⟨rest, rfl⟩ := List.head?_eq_some_iff.1 head
      exact ⟨first, rest, rfl⟩
  | _ => exact ⟨_, _, rfl⟩

/-- A statement is written in one line. -/
theorem Spelled.unbroken {k : Kind} (spelled : k.Spelled ls) : Line.Unbroken ls := by
  cases spelled with
  | command named other word opening items closing =>
      have inner := items.unbroken fun _ _ _ => Expr.Yields.unbroken
      simp only [Line.Unbroken, List.forall_mem_cons, List.forall_mem_append, word, opening,
        closing]
      exact ⟨by simp, by simp, inner, by simp⟩
  | goTo word left name right opening condition closing =>
      have inner := condition.unbroken
      simp only [Line.Unbroken, List.forall_mem_cons, List.forall_mem_append, word, left, name,
        right, opening, closing]
      exact ⟨by simp, by simp, by simp, by simp, by simp, inner, by simp⟩
  | assign name arrow value =>
      have inner := value.unbroken
      simp only [Line.Unbroken, List.forall_mem_cons, name, arrow]
      exact ⟨by simp, by simp, inner⟩
  | label name => simp [Line.Unbroken, name]
  | declared word name => simp [Line.Unbroken, word, name]
  | expr whole => exact whole.unbroken

/-- Every statement can be written. -/
theorem exists_spelled (k : Kind) : ∃ ls, k.Spelled ls := by
  have bare (t : Token) : ∃ l : Lexeme, l.token = t := ⟨⟨t, t.text, 0, 0, .start⟩, rfl⟩
  obtain ⟨o, ho⟩ := bare .openParen
  obtain ⟨cl, hcl⟩ := bare .closeParen
  cases k with
  | goTo target e =>
      obtain ⟨w, hw⟩ := bare (.command .goTo)
      obtain ⟨lb, hlb⟩ := bare .openBracket
      obtain ⟨n, hn⟩ := bare (.ident target)
      obtain ⟨rb, hrb⟩ := bare .closeBracket
      obtain ⟨ls, hls⟩ := e.exists_spelled
      exact ⟨_, .goTo hw hlb hn hrb ho hls hcl⟩
  | assign x e =>
      obtain ⟨n, hn⟩ := bare (.ident x)
      obtain ⟨a, ha⟩ := bare .assign
      obtain ⟨ls, hls⟩ := e.exists_spelled
      exact ⟨_, .assign hn ha hls⟩
  | label x =>
      obtain ⟨n, hn⟩ := bare (.ident x)
      exact ⟨_, .label hn⟩
  | expr e =>
      obtain ⟨ls, hls⟩ := e.exists_spelled
      exact ⟨ls, .expr hls⟩
  | _ =>
      obtain ⟨w, hw⟩ := bare (.command _)
      obtain ⟨ls, hls⟩ := Expr.exists_separated fun e _ => e.exists_spelled
      exact ⟨_, .command rfl (by simp) hw ho hls hcl⟩

end Stmt.Kind

/-! ### Reading a program -/

/-- A line that is a written statement is read as that statement. -/
theorem Line.parse_of_spelled {s : Stmt} {stop : Lexeme} (readable : ∀ e ∈ s.args, e.Readable)
    (notBare : ∀ loc x, s.kind ≠ .expr (.var loc x)) (spelled : s.kind.Spelled ls) :
    ∃ s', s'.unplaced = s.unplaced ∧ Line.parse ⟨ls, stop⟩ = { stmts := [s'] } := by
  obtain ⟨k', same, h⟩ := Stmt.Kind.parse_of_spelled readable notBare spelled
  obtain ⟨first, rest, rfl⟩ := spelled.cons
  have whole : Stmt.parse first.loc (first :: rest) = .ok ⟨first.loc, k'⟩ [] := by
    rw [Stmt.parse, bind_of_ok h]
    rfl
  refine ⟨⟨first.loc, k'⟩, by rw [Stmt.unplaced, same, Stmt.unplaced], ?_⟩
  simp only [Line.parse, List.length_cons, Line.parseRest, whole]

namespace Program

/-- Every program can be spelled. -/
theorem exists_spelled (p : Program) : ∃ ls, p.Spelled ls := by
  obtain ⟨ss⟩ := p
  induction ss with
  | nil => exact ⟨[], .nil⟩
  | cons s ss ih =>
      obtain ⟨rest, others⟩ := ih
      obtain ⟨ls, first⟩ := s.kind.exists_spelled
      exact ⟨ls ++ ⟨.endl, "\n", 0, 0, .start⟩ :: rest, .cons first rfl others⟩

/-- **Written programs are read back.** Let the expressions of a program have brackets wherever
precedence demands them and take no more than the whole budget, and let no statement be a variable
alone. Then the program can be written, one statement a line, and however it is written it is read
without errors and as the same program up to places. -/
theorem written_programs_are_read_back (p : Program)
    (layered : ∀ s ∈ p.stmts, ∀ e ∈ s.args, e.Layered)
    (shallow : ∀ s ∈ p.stmts, ∀ e ∈ s.args, e.charge ≤ maxNesting)
    (notBare : ∀ s ∈ p.stmts, ∀ loc x, s.kind ≠ .expr (.var loc x)) :
    (∃ lexemes, p.Spelled lexemes) ∧
      ∀ eof lexemes, p.Spelled lexemes →
        (Program.parse eof lexemes).faults = [] ∧
          (Program.parse eof lexemes).program.unplaced = p.unplaced := by
  refine ⟨p.exists_spelled, fun eof lexemes spelled => ?_⟩
  obtain ⟨ss⟩ := p
  unfold Program.Spelled at spelled
  dsimp only at layered shallow notBare spelled
  induction spelled with
  | nil => exact ⟨rfl, rfl⟩
  | @cons s ss ls rest stop first ends others ih =>
      simp only [List.forall_mem_cons] at layered shallow notBare
      obtain ⟨s', same, read⟩ :=
        Line.parse_of_spelled (fun e he => ⟨layered.1 e he, shallow.1 e he⟩) notBare.1 first
      obtain ⟨clean, again⟩ := ih layered.2 shallow.2 notBare.2
      rw [parse_cons first.unbroken ends, read, Parsed.append_def]
      refine ⟨by simpa using clean, ?_⟩
      simp only [Parsed.program, Program.unplaced, List.singleton_append, List.map_cons, same]
        at again ⊢
      simpa using again

/-- The program `Spawn(0, 1)`, `Label loop`, `n <- 1 - [n - 1] * 1 ** f(n)` and
`GoTo[loop](!(n < 1))`. -/
def countdown : Program where
  stmts :=
    [⟨.start, .spawn (.lit .start (.int .zero)) one⟩,
      ⟨.start, .label "loop"⟩,
      ⟨.start, .assign "n" (.binary .start .sub one
        (.binary .start .mul (.group .start (.binary .start .sub n one))
          (.binary .start .pow one (.call .start "f" [n]))))⟩,
      ⟨.start, .goTo "loop" (.unary .start .not (.group .start (.binary .start .lt n one)))⟩]
where
  /-- The literal one. -/
  one : Expr := .lit .start (.int .one)
  /-- The counter. -/
  n : Expr := .var .start "n"

/-- A loop with nested operators, a call and groups is read back. -/
theorem countdown_is_read_back :
    (∃ lexemes, countdown.Spelled lexemes) ∧
      ∀ eof lexemes, countdown.Spelled lexemes →
        (Program.parse eof lexemes).faults = [] ∧
          (Program.parse eof lexemes).program.unplaced = countdown.unplaced := by
  refine written_programs_are_read_back countdown ?_ ?_ ?_
  · have left : BinaryOp.mul.AllowsRight .pow := by decide
    have right : BinaryOp.sub.AllowsRight .mul := by decide
    simp [countdown, countdown.one, countdown.n, Stmt.args, Stmt.Kind.args, Expr.op?, left, right]
  · simp [countdown, countdown.one, countdown.n, Stmt.args, Stmt.Kind.args, Expr.charge,
      Expr.chargeAll, Expr.folds, maxNesting]
  · simp [countdown]

end Program

end PenScript
