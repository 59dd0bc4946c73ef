import PenScript.Proofs.Lines
import PenScript.Proofs.ParserSoundness
import PenScript.Parser

/-!
# Parsers stay in their line

A parser that gives up inside a line may have all the other lines in front of it, and so may one
that looks ahead. But no production of the grammar takes a line break, and none looks behind one. So
a parser does the same on a line alone and on the line with others behind it, and leaves the others
where they are; this holds for what it returns as for what it gives up with. It is enough to say so
for the parsers of single tokens, because it is kept when parsers go on behind each other.

Two things need a closer look. The arguments of a call are bounded by the lexemes that are left, and
these are more if other lines follow; but every argument takes a lexeme, so the bound is never
reached. And nothing is charged for nesting beyond the expression it was charged in, because the
budget is handed down and not kept.

## Main definitions

* `Line.ended` — a line ends in front of some lexemes;
* `Parser.LineLocal` — what follows a line does not matter to a parser.

## Main results

* `Parser.LineLocal.bind`: parsers that stay in the line may go on behind each other;
* `Expr.parse_lineLocal`, `Stmt.Kind.afterCommand_lineLocal`: expressions and commands stay in their
  line.
-/

namespace PenScript

open PenScript.Parser

/-! ### What follows a line -/

/-- A line ends in front of the lexemes: they start with a line break, or there are none. -/
def Line.ended : List Lexeme → Bool
  | [] => true
  | l :: _ => l.token = .endl

/-- A line has ended where nothing is left, or a line break is next. -/
theorem Line.ended_iff {tail : List Lexeme} :
    Line.ended tail = true ↔ ∀ l ∈ tail.head?, l.token = .endl := by
  cases tail <;> simp [Line.ended]

namespace Parser

variable {α β : Type} {p q : Parser α} {f g : α → Parser β} {ls : List Lexeme}

/-- What a parser left. -/
def left : EStateM.Result SyntaxError.Cause (List Lexeme) α → List Lexeme
  | .ok _ rest | .error _ rest => rest

/-- The result of a parser with more lexemes behind those it left. -/
def extend (tail : List Lexeme) :
    EStateM.Result SyntaxError.Cause (List Lexeme) α →
      EStateM.Result SyntaxError.Cause (List Lexeme) α
  | .ok a rest => .ok a (rest ++ tail)
  | .error cause rest => .error cause (rest ++ tail)

/-- A parser that goes on behind another one leaves the end of what there was if both do. -/
theorem left_bind_suffix (first : ∀ ls, left (p ls) <:+ ls) (second : ∀ a ls, left (f a ls) <:+ ls)
    (ls : List Lexeme) : left ((p >>= f) ls) <:+ ls := by
  have start := first ls
  cases h : p ls with
  | ok a rest =>
      rw [h] at start
      rw [bind_of_ok h]
      exact (second a rest).trans start
  | error cause rest =>
      rw [h] at start
      rwa [bind_of_error h]

/-- What `p` does on a line alone, `q` does on the line with others behind it, and what stands
behind the line stays there. And `p` only takes lexemes from the front. -/
structure LineLocal (p q : Parser α) : Prop where
  suffix : ∀ ls, left (p ls) <:+ ls
  eq_extend : ∀ {line tail}, Line.Unbroken line → Line.ended tail = true →
    q (line ++ tail) = extend tail (p line)

namespace LineLocal

/-- What reads nothing is local to its line. -/
theorem pure (a : α) : LineLocal (pure a) (pure a) :=
  ⟨fun ls => List.suffix_refl ls, fun _ _ => rfl⟩

/-- So is what gives up at once. -/
theorem throw (cause : SyntaxError.Cause) :
    LineLocal (throw cause : Parser α) (throw cause) :=
  ⟨fun ls => List.suffix_refl ls, fun _ _ => rfl⟩

/-- A parser behind another one stays in the line if both do. -/
theorem bind (first : LineLocal p q) (second : ∀ a, LineLocal (f a) (g a)) :
    LineLocal (p >>= f) (q >>= g) where
  suffix := left_bind_suffix first.suffix fun a => (second a).suffix
  eq_extend {line tail} unbroken ended := by
    have start := first.suffix line
    have same := first.eq_extend unbroken ended
    cases h : p line with
    | ok a rest =>
        rw [h] at start same
        rw [bind_of_ok h, bind_of_ok same]
        exact (second a).eq_extend (unbroken.of_suffix start) ended
    | error cause rest =>
        rw [h] at same
        rw [bind_of_error h, bind_of_error same]
        rfl

/-- A change of what was read is local. -/
theorem map (h : LineLocal p q) (f : α → β) : LineLocal (f <$> p) (f <$> q) := by
  rw [map_eq_pure_bind, map_eq_pure_bind]
  exact h.bind fun a => pure (f a)

end LineLocal

/-- A parser stays in the line if what it does behind the first lexeme does, and if it gives up in
front of everything that no line can start with. -/
theorem lineLocal_of_cons (cause : SyntaxError.Cause)
    (start : ∀ l, (∃ q : Parser α, LineLocal q q ∧ ∀ rest, p (l :: rest) = q rest) ∨
      ∀ rest, p (l :: rest) = .error cause (l :: rest))
    (stop : ∀ {tail}, Line.ended tail = true → p tail = .error cause tail) : LineLocal p p where
  suffix ls := by
    cases ls with
    | nil =>
        rw [stop rfl]
        exact List.suffix_refl []
    | cons l ls =>
        obtain ⟨q, behind, same⟩ | refused := start l
        · rw [same]
          exact (behind.suffix ls).trans (List.suffix_cons l ls)
        · rw [refused]
          exact List.suffix_refl _
  eq_extend {line tail} unbroken ended := by
    cases line with
    | nil =>
        rw [List.nil_append, stop ended, stop rfl]
        rfl
    | cons l line =>
        obtain ⟨q, behind, same⟩ | refused := start l
        · rw [List.cons_append, same, same]
          exact behind.eq_extend (unbroken.of_suffix (List.suffix_cons l line)) ended
        · rw [List.cons_append, refused, refused]
          rfl

/-- No token but a line break is found in front of one. -/
theorem accept_lineLocal {t : Token} (other : t ≠ .endl) : LineLocal (accept t) (accept t) where
  suffix ls := by
    obtain ⟨l, rest, rfl, found⟩ | missing := head_eq_or_ne t ls
    · rw [accept_of_eq found]
      exact List.suffix_cons l rest
    · rw [accept_of_ne missing]
      exact List.suffix_refl ls
  eq_extend {line tail} unbroken ended := by
    cases line with
    | nil =>
        have missing : ∀ l ∈ tail.head?, l.token ≠ t := by
          intro l hl
          rw [Line.ended_iff.1 ended l hl]
          exact other.symm
        rw [List.nil_append, accept_of_ne missing]
        rfl
    | cons l line =>
        rw [List.cons_append, accept, accept]
        split <;> rfl

/-- Expecting something other than a line break is local. -/
theorem expect_lineLocal {t : Token} (e : Expectation) (other : t ≠ .endl) :
    LineLocal (expect t e) (expect t e) := by
  refine (accept_lineLocal other).bind fun found => ?_
  cases found with
  | true => exact .pure ()
  | false => exact .throw (.expected e)

/-- Parsers that agree on what there is agree whatever goes on behind them. -/
theorem bind_congr_left (h : p ls = q ls) : (p >>= f) ls = (q >>= f) ls := by
  change EStateM.bind p f ls = EStateM.bind q f ls
  rw [EStateM.bind, EStateM.bind, h]

/-- Parsers that do the same here do so with what was read changed. -/
theorem map_congr_left {f : α → β} (h : p ls = q ls) : (f <$> p) ls = (f <$> q) ls := by
  change EStateM.map f p ls = EStateM.map f q ls
  rw [EStateM.map, EStateM.map, h]

/-- Two parsers that go on behind the same one agree if they agree on what it leaves. -/
theorem bind_congr_ok (h : ∀ {a rest}, p ls = .ok a rest → f a rest = g a rest) :
    (p >>= f) ls = (p >>= g) ls := by
  cases read : p ls with
  | ok a rest => rw [bind_of_ok read, bind_of_ok read, h read]
  | error cause rest => rw [bind_of_error read, bind_of_error read]

end Parser

/-! ### Expressions stay in their line -/

namespace Expr

variable {argument : Parser Expr} {sub : Nat → Parser Expr} {ls : List Lexeme}

/-- Every argument takes a lexeme, so a bound beyond their number does not matter. -/
theorem arguments_eq_of_lt
    (taken : ∀ {ls e rest}, argument ls = .ok e rest → rest.length < ls.length) {bound bound' : Nat}
    (h : ls.length < bound) (h' : ls.length < bound') :
    arguments argument bound ls = arguments argument bound' ls := by
  induction bound generalizing bound' ls with
  | zero => cases h
  | succ bound ih =>
      obtain ⟨bound', rfl⟩ : ∃ b, bound' = b + 1 := ⟨bound' - 1, by omega⟩
      rw [arguments, arguments]
      refine bind_congr_ok fun {e ls₁} first => ?_
      have shorter := taken first
      obtain ⟨c, ls₂, rfl, closing⟩ | open_ := head_eq_or_ne .closeParen ls₁
      · rw [bind_of_ok (accept_of_eq closing), bind_of_ok (accept_of_eq closing)]
        rfl
      · rw [bind_of_ok (accept_of_ne open_), bind_of_ok (accept_of_ne open_), if_neg (by simp),
          if_neg (by simp)]
        refine bind_congr_ok fun {_ ls₂} comma => ?_
        obtain ⟨m, rfl, -⟩ := expect_eq_ok_iff.1 comma
        rw [List.length_cons] at shorter
        exact bind_congr_left (ih (by omega) (by omega))

/-- A list of arguments is local if each of them is. -/
theorem arguments_lineLocal (each : LineLocal argument argument) (bound : Nat) :
    LineLocal (arguments argument bound) (arguments argument bound) := by
  induction bound with
  | zero => exact .throw _
  | succ bound ih =>
      rw [arguments]
      refine each.bind fun e => (accept_lineLocal (by simp)).bind fun closed => ?_
      cases closed with
      | true => exact .pure [e]
      | false =>
          refine (expect_lineLocal _ (by simp)).bind fun _ => ih.bind fun es => ?_
          exact .pure (e :: es)

/-- The bound on the arguments of a call counts the lexemes of all lines that follow, but those of
the line would do. -/
theorem named_lineLocal (each : LineLocal argument argument)
    (taken : ∀ {ls e rest}, argument ls = .ok e rest → rest.length < ls.length) (loc : Location)
    (name : String) : LineLocal (named argument loc name) (named argument loc name) := by
  have listed (bound : Nat) : LineLocal (call loc name <$> arguments argument bound)
      (call loc name <$> arguments argument bound) :=
    (arguments_lineLocal each bound).map _
  refine (accept_lineLocal (by simp)).bind fun opened => ?_
  cases opened with
  | false => exact .pure (var loc name)
  | true =>
      refine (accept_lineLocal (by simp)).bind fun closed => ?_
      cases closed with
      | true => exact .pure (call loc name [])
      | false =>
          refine ⟨fun ls => (listed (ls.length + 1)).suffix ls, ?_⟩
          intro line tail unbroken ended
          have enough : line.length < (line ++ tail).length + 1 := by
            rw [List.length_append]
            omega
          have same : arguments argument ((line ++ tail).length + 1) line =
              arguments argument (line.length + 1) line :=
            arguments_eq_of_lt taken enough (Nat.lt_succ_self _)
          exact ((listed _).eq_extend unbroken ended).trans
            (congrArg (extend tail) (map_congr_left same))

/-- A group is local if its inside is. -/
theorem grouped_lineLocal {inner : Parser Expr} (h : LineLocal inner inner) (loc : Location)
    {close : Token} (other : close ≠ .endl) :
    LineLocal (grouped inner loc close) (grouped inner loc close) :=
  h.bind fun e => (expect_lineLocal _ other).bind fun _ => .pure (group loc e)

/-- No operand starts with a line break. -/
theorem operand_lineLocal (each : ∀ least, LineLocal (sub least) (sub least))
    (taken : ∀ {ls e rest}, sub 0 ls = .ok e rest → rest.length < ls.length) :
    LineLocal (operand sub) (operand sub) := by
  refine lineLocal_of_cons (.expected .expression) (fun l => ?_) fun {tail} ended => ?_
  · simp only [operand]
    split
    · exact .inl ⟨pure _, .pure _, fun _ => rfl⟩
    · exact .inl ⟨pure _, .pure _, fun _ => rfl⟩
    · exact .inl ⟨pure _, .pure _, fun _ => rfl⟩
    · exact .inl ⟨_, named_lineLocal (each 0) taken _ _, fun _ => rfl⟩
    · exact .inl ⟨_, grouped_lineLocal (each 0) _ (by simp), fun _ => rfl⟩
    · exact .inl ⟨_, grouped_lineLocal (each 0) _ (by simp), fun _ => rfl⟩
    · exact .inl ⟨_, (each _).map _, fun _ => rfl⟩
    · exact .inl ⟨_, (each _).map _, fun _ => rfl⟩
    · exact .inr fun _ => rfl
  · cases tail with
    | nil => rfl
    | cons l tail =>
        have token : l.token = .endl := Line.ended_iff.1 ended l rfl
        simp only [operand, token]
        rfl

/-- An operator is found in a line whether or not others follow. -/
theorem operator?_append (least : Nat) (line : List Lexeme) {tail : List Lexeme}
    (ended : Line.ended tail = true) :
    operator? least (line ++ tail) =
      (operator? least line).map fun found => (found.1, found.2 ++ tail) := by
  cases line with
  | nil =>
      refine operator?_eq_none_iff.2 fun l hl op token => ?_
      rw [Line.ended_iff.1 ended l hl] at token
      cases token
  | cons l line =>
      rw [List.cons_append, operator?, operator?]
      split
      · split <;> rfl
      · rfl

/-- An operator is taken from the front. -/
theorem operator?_suffix {least : Nat} {op : BinaryOp} {rest : List Lexeme}
    (found : operator? least ls = some (op, rest)) : rest <:+ ls := by
  obtain ⟨o, rfl, -⟩ := operator?_eq_some_iff.1 found
  exact List.suffix_cons o rest

/-- A parser that goes on behind an operator ahead stays in the line if it does so behind every
operator: one is found in the line or nowhere. -/
theorem lineLocal_of_operator {least : Nat} {lhs : Expr} {p : Parser Expr}
    {next : BinaryOp → Parser Expr}
    (stops : ∀ {ls}, operator? least ls = none → p ls = .ok lhs ls)
    (goes : ∀ {ls op rest}, operator? least ls = some (op, rest) → p ls = next op rest)
    (after : ∀ op, LineLocal (next op) (next op)) : LineLocal p p where
  suffix ls := by
    cases found : operator? least ls with
    | none =>
        rw [stops found]
        exact List.suffix_refl ls
    | some ahead =>
        rw [goes found]
        exact ((after ahead.1).suffix ahead.2).trans (operator?_suffix found)
  eq_extend {line tail} unbroken ended := by
    have more := operator?_append least line ended
    cases found : operator? least line with
    | none =>
        rw [found] at more
        rw [stops found, stops more]
        rfl
    | some ahead =>
        rw [found] at more
        rw [goes found, goes more]
        exact (after ahead.1).eq_extend (unbroken.of_suffix (operator?_suffix found)) ended

/-- A chain of operators is local if the operands are. -/
theorem chain_lineLocal {budget : Nat}
    (each : ∀ b < budget, ∀ least, LineLocal (parseWithin b least) (parseWithin b least))
    (least : Nat) (lhs : Expr) : LineLocal (chain budget least lhs) (chain budget least lhs) := by
  induction budget generalizing lhs with
  | zero => exact lineLocal_of_operator chain_of_none chain_zero_of_some fun _ => .throw .tooDeep
  | succ budget ih =>
      refine lineLocal_of_operator chain_of_none chain_succ_of_some fun op => ?_
      refine (each budget (Nat.lt_succ_self _) _).bind fun rhs => ?_
      exact ih (fun b hb => each b (Nat.lt_succ_of_lt hb)) _

/-- **Reading an expression is local to its line**, within every budget. -/
theorem parseWithin_lineLocal (budget least : Nat) :
    LineLocal (parseWithin budget least) (parseWithin budget least) := by
  induction budget using Nat.strongRecOn generalizing least with
  | ind budget ih =>
      cases budget with
      | zero =>
          rw [parseWithin]
          exact .throw _
      | succ budget =>
          rw [parseWithin]
          refine (operand_lineLocal (ih budget (Nat.lt_succ_self _)) ?_).bind fun lhs => ?_
          · exact fun h => (parseWithin_sound h).length_lt
          · exact chain_lineLocal (fun b hb => ih b (Nat.lt_succ_of_lt hb)) least lhs

/-- So it is within the whole budget. -/
theorem parse_lineLocal : LineLocal Expr.parse Expr.parse :=
  parseWithin_lineLocal maxNesting 0

end Expr
/-! ### Commands stay in their line -/

namespace Stmt.Kind

/-- The first argument of a command is local. -/
theorem firstArg_lineLocal (c : Command) : LineLocal (firstArg c) (firstArg c) :=
  (expect_lineLocal _ (by simp)).bind fun _ => Expr.parse_lineLocal

/-- So are the others. -/
theorem nextArg_lineLocal (c : Command) : LineLocal (nextArg c) (nextArg c) :=
  (expect_lineLocal _ (by simp)).bind fun _ => Expr.parse_lineLocal

/-- A command ends with its closing parenthesis. -/
theorem argsEnd_lineLocal (c : Command) (k : Kind) :
    LineLocal (argsEnd c >>= fun _ => pure k) (argsEnd c >>= fun _ => pure k) :=
  (expect_lineLocal _ (by simp)).bind fun _ => .pure k

/-- A command with one argument is local. -/
theorem unaryCommand_lineLocal (c : Command) (make : Expr → Kind) :
    LineLocal (unaryCommand c make) (unaryCommand c make) :=
  (firstArg_lineLocal c).bind fun _ => argsEnd_lineLocal c _

/-- A command with two arguments is local. -/
theorem binaryCommand_lineLocal (c : Command) (make : Expr → Expr → Kind) :
    LineLocal (binaryCommand c make) (binaryCommand c make) :=
  (firstArg_lineLocal c).bind fun _ => (nextArg_lineLocal c).bind fun _ => argsEnd_lineLocal c _

/-- A command with three arguments is local. -/
theorem ternaryCommand_lineLocal (c : Command) (make : Expr → Expr → Expr → Kind) :
    LineLocal (ternaryCommand c make) (ternaryCommand c make) :=
  (firstArg_lineLocal c).bind fun _ => (nextArg_lineLocal c).bind fun _ =>
    (nextArg_lineLocal c).bind fun _ => argsEnd_lineLocal c _

/-- The name of a label is local. -/
theorem labelName_lineLocal : LineLocal labelName labelName := by
  refine lineLocal_of_cons (.expected .labelName) (fun l => ?_) fun {tail} ended => ?_
  · simp only [labelName]
    split
    · exact .inl ⟨pure _, .pure _, fun _ => rfl⟩
    · exact .inr fun _ => rfl
  · cases tail with
    | nil => rfl
    | cons l tail =>
        have token : l.token = .endl := Line.ended_iff.1 ended l rfl
        simp only [labelName, token]
        rfl

/-- A jump is local. -/
theorem jump_lineLocal : LineLocal jump jump := by
  refine (expect_lineLocal _ (by simp)).bind fun _ => labelName_lineLocal.bind fun target => ?_
  refine (expect_lineLocal _ (by simp)).bind fun _ => ?_
  refine (expect_lineLocal _ (by simp)).bind fun _ => ?_
  refine Expr.parse_lineLocal.bind fun e => (expect_lineLocal _ (by simp)).bind fun _ => ?_
  exact .pure (goTo target e)

/-- What stands behind the word of a command is local. -/
theorem afterCommand_lineLocal (c : Command) : LineLocal (afterCommand c) (afterCommand c) := by
  cases c with
  | spawn | respawn => exact binaryCommand_lineLocal _ _
  | color | size | filling => exact unaryCommand_lineLocal _ _
  | drawLine | drawCircle => exact ternaryCommand_lineLocal _ _
  | drawRectangle =>
      have next := nextArg_lineLocal .drawRectangle
      refine (firstArg_lineLocal _).bind fun dx => next.bind fun dy => next.bind fun d => ?_
      exact next.bind fun w => next.bind fun t => argsEnd_lineLocal _ _
  | fill => exact (expect_lineLocal _ (by simp)).bind fun _ => argsEnd_lineLocal .fill .fill
  | goTo => exact jump_lineLocal
/-- An expression as a statement is local. -/
theorem expr_lineLocal : LineLocal (Kind.expr <$> Expr.parse) (Kind.expr <$> Expr.parse) :=
  Expr.parse_lineLocal.map Kind.expr

/-- An assignment is local. -/
theorem assign_lineLocal (x : String) :
    LineLocal (Kind.assign x <$> Expr.parse) (Kind.assign x <$> Expr.parse) :=
  Expr.parse_lineLocal.map (Kind.assign x)

end Stmt.Kind

end PenScript
