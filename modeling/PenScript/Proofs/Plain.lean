import PenScript.Proofs.ProgramCompleteness
import PenScript.Proofs.Recovery
import PenScript.Proofs.Writing

/-!
# What is read can be written

The parser takes names and literals from the lexemes as they are. So whatever stands in a tree that
was read from a text can be written in a text: no integer literal is negative, no string literal
holds a quote, and no name is a reserved word.

That the lexemes of a line write the statement that is read from it, is the converse of what is said
about written statements, and holds for statements that are followed by something else as well.

## Main definitions

* `Expr.Plain`, `Stmt.Plain`, `Program.Plain` — everything in it can be written.

## Main results

* `Stmt.Kind.parse_sound`: the lexemes of a statement that is read write it;
* `Program.parse_plain`: everything that is read from a text is plain.
-/

namespace PenScript

open PenScript.Parser

/-! ### Plain trees -/

/-- What a node holds besides the nodes below it can be written. -/
def Expr.Proper : Expr → Prop
  | lit _ v => (Token.ofValue v).Writable
  | var _ x | call _ x _ => IsName x
  | group .. | unary .. | binary .. => True

/-- All literals and names of an expression can be written. -/
def Expr.Plain (e : Expr) : Prop :=
  ∀ n ∈ e.preorder, n.Proper

/-- The name that a statement assigns to, declares or jumps to. -/
def Stmt.Kind.name? : Stmt.Kind → Option String
  | assign x _ | label x | goTo x _ => some x
  | _ => none

/-- All literals and names of a statement can be written: its own name, and those in its
expressions. -/
structure Stmt.Kind.Plain (k : Stmt.Kind) : Prop where
  name : ∀ x ∈ k.name?, IsName x
  args : ∀ e ∈ k.args, e.Plain

/-- All literals and names of a statement can be written. -/
def Stmt.Plain (s : Stmt) : Prop :=
  s.kind.Plain

/-- All literals and names of a program can be written. -/
def Program.Plain (p : Program) : Prop :=
  ∀ s ∈ p.stmts, s.Plain

namespace Expr

variable {e a b : Expr} {loc : Location}

/-- A literal is plain if its token can be written. -/
@[simp] theorem plain_lit {v : Value} : (lit loc v).Plain ↔ (Token.ofValue v).Writable := by
  simp [Plain, preorder, Proper]

/-- A variable is plain if it has a name. -/
@[simp] theorem plain_var {x : String} : (var loc x).Plain ↔ IsName x := by
  simp [Plain, preorder, Proper]

/-- A call is plain if its function has a name and its arguments are plain. -/
@[simp] theorem plain_call {f : String} {args : List Expr} :
    (call loc f args).Plain ↔ IsName f ∧ ∀ a ∈ args, a.Plain := by
  simp only [Plain, forall_mem_preorder_call, Proper]

/-- Brackets change nothing. -/
@[simp] theorem plain_group : (group loc e).Plain ↔ e.Plain := by
  simp [Plain, preorder, Proper]

/-- An operator is plain if its operand is. -/
@[simp] theorem plain_unary {op : UnaryOp} : (unary loc op e).Plain ↔ e.Plain := by
  simp [Plain, preorder, Proper]

/-- An operator is plain if both operands are. -/
@[simp] theorem plain_binary {op : BinaryOp} :
    (binary loc op a b).Plain ↔ a.Plain ∧ b.Plain := by
  simp only [Plain, preorder, List.forall_mem_cons, List.forall_mem_append, Proper, true_and]

/-! ### Lexemes that can be written -/

variable {starts starts' : Location → Lexeme → Prop} {ls : List Lexeme}

/-- A list of items is one of whatever all its items are. -/
theorem Separated.imp {item item' : Expr → List Lexeme → Prop} {es : List Expr}
    (each : ∀ e ∈ es, ∀ {ls}, item e ls → item' e ls) (h : Separated item es ls) :
    Separated item' es ls := by
  induction h with
  | nil => exact .nil
  | one only => exact .one (each _ List.mem_cons_self only)
  | more first token others ih =>
      refine .more (each _ List.mem_cons_self first) token (ih fun e he => ?_)
      exact each e (List.mem_cons_of_mem _ he)

/-- A tree is written by its lexemes, wherever its nodes stand. -/
theorem Yields.spelled (h : e.Yields starts ls) : e.Spelled ls := by
  induction e using inductionOn generalizing ls with
  | lit loc v =>
      cases h with
      | lit _ token => exact .lit trivial token
  | var loc x =>
      cases h with
      | var _ token => exact .var trivial token
  | call loc f args ih =>
      cases h with
      | call _ token opening items closing =>
          exact .call trivial token opening (items.imp fun a ha _ => ih a ha) closing
  | group loc e ih =>
      cases h with
      | group _ brackets inner => exact .group trivial brackets (ih inner)
  | unary loc op e ih =>
      cases h with
      | unary _ token operand => exact .unary trivial token (ih operand)
  | binary loc op a b iha ihb =>
      cases h with
      | binary _ head left token right => exact .binary trivial head (iha left) token (ihb right)

/-- What the lexemes of an item give of it, those of a list give of all its items. -/
theorem Separated.forall {item : Expr → List Lexeme → Prop} {P : Expr → Prop} {Q : Lexeme → Prop}
    {es : List Expr} (each : ∀ e ∈ es, ∀ {ls}, item e ls → (∀ l ∈ ls, Q l) → P e)
    (h : Separated item es ls) (all : ∀ l ∈ ls, Q l) : ∀ e ∈ es, P e := by
  induction h with
  | nil => exact nofun
  | one only => simpa using each _ List.mem_cons_self only all
  | more first token others ih =>
      obtain ⟨left, -, right⟩ := by
        simpa only [List.forall_mem_append, List.forall_mem_cons] using all
      refine List.forall_mem_cons.2 ⟨each _ List.mem_cons_self first left, ?_⟩
      exact ih (fun e he => each e (List.mem_cons_of_mem _ he)) right

/-- A tree is plain if its lexemes can be written. -/
theorem Yields.plain (h : e.Yields starts ls) (all : ∀ l ∈ ls, l.token.Writable) : e.Plain := by
  induction e using inductionOn generalizing ls with
  | lit loc v =>
      cases h with
      | lit _ token => exact plain_lit.2 (token ▸ all _ List.mem_cons_self)
  | var loc x =>
      cases h with
      | var _ token =>
          have writable := all _ List.mem_cons_self
          rw [token] at writable
          exact plain_var.2 writable
  | call loc f args ih =>
      cases h with
      | call _ token opening items closing =>
          simp only [List.forall_mem_cons, List.forall_mem_append, token] at all
          obtain ⟨name, -, inner, -⟩ := all
          exact plain_call.2 ⟨name, items.forall (fun a ha _ => ih a ha) inner⟩
  | group loc e ih =>
      cases h with
      | group _ brackets inner =>
          simp only [List.forall_mem_cons, List.forall_mem_append] at all
          exact plain_group.2 (ih inner all.2.1)
  | unary loc op e ih =>
      cases h with
      | unary _ token operand =>
          exact plain_unary.2 (ih operand (List.forall_mem_cons.1 all).2)
  | binary loc op a b iha ihb =>
      cases h with
      | binary _ head left token right =>
          simp only [List.forall_mem_append, List.forall_mem_cons] at all
          exact plain_binary.2 ⟨iha left all.1, ihb right all.2.2⟩

end Expr

/-! ### Statements are read as they are written -/

/-- An expression is spelled by the lexemes that were taken for it. -/
theorem Expr.parse_spelled {e : Expr} {ls rest : List Lexeme} (h : Expr.parse ls = .ok e rest) :
    ∃ xs, ls = xs ++ rest ∧ e.Spelled xs := by
  obtain ⟨xs, rfl, written⟩ := (parseWithin_sound h).written
  exact ⟨xs, rfl, written.spelled⟩

namespace Stmt.Kind

variable {c : Command} {k : Kind} {a : Expr} {ls rest : List Lexeme} {w : Lexeme}

/-- Arguments in parentheses stand in front of `rest`. -/
def Listed (args : List Expr) (ls rest : List Lexeme) : Prop :=
  ∃ o inner cl, ls = o :: (inner ++ cl :: rest) ∧ o.token = .openParen ∧
    Expr.Separated Expr.Spelled args inner ∧ cl.token = .closeParen

/-- A first argument stands behind an opening bracket. -/
theorem firstArg_sound (h : firstArg c ls = .ok a rest) :
    ∃ o xs, ls = o :: (xs ++ rest) ∧ o.token = .openParen ∧ a.Spelled xs := by
  obtain ⟨_, ls₁, opening, argument⟩ := bind_eq_ok_iff.1 h
  obtain ⟨o, rfl, token⟩ := expect_eq_ok_iff.1 opening
  obtain ⟨xs, rfl, spelled⟩ := Expr.parse_spelled argument
  exact ⟨o, xs, rfl, token, spelled⟩

/-- A further argument stands behind a comma. -/
theorem nextArg_sound (h : nextArg c ls = .ok a rest) :
    ∃ m xs, ls = m :: (xs ++ rest) ∧ m.token = .comma ∧ a.Spelled xs := by
  obtain ⟨_, ls₁, comma, argument⟩ := bind_eq_ok_iff.1 h
  obtain ⟨m, rfl, token⟩ := expect_eq_ok_iff.1 comma
  obtain ⟨xs, rfl, spelled⟩ := Expr.parse_spelled argument
  exact ⟨m, xs, rfl, token, spelled⟩

/-- The arguments end with a closing bracket. -/
theorem argsEnd_sound {u : Unit} (h : argsEnd c ls = .ok u rest) :
    ∃ cl, ls = cl :: rest ∧ cl.token = .closeParen :=
  expect_eq_ok_iff.1 h

/-- A command of one argument was read from the list of it. -/
theorem unaryCommand_sound {make : Expr → Kind} (h : unaryCommand c make ls = .ok k rest) :
    ∃ a, k = make a ∧ Listed [a] ls rest := by
  obtain ⟨a, ls₁, ha, h⟩ := bind_eq_ok_iff.1 h
  obtain ⟨u, ls₂, hu, h⟩ := bind_eq_ok_iff.1 h
  obtain ⟨rfl, rfl⟩ := pure_eq_ok_iff.1 h
  obtain ⟨o, xs, rfl, opening, first⟩ := firstArg_sound ha
  obtain ⟨cl, rfl, closing⟩ := argsEnd_sound hu
  exact ⟨a, rfl, o, xs, cl, rfl, opening, .one first, closing⟩

/-- A command of two arguments was read from the list of them. -/
theorem binaryCommand_sound {make : Expr → Expr → Kind}
    (h : binaryCommand c make ls = .ok k rest) :
    ∃ a b, k = make a b ∧ Listed [a, b] ls rest := by
  obtain ⟨a, ls₁, ha, h⟩ := bind_eq_ok_iff.1 h
  obtain ⟨b, ls₂, hb, h⟩ := bind_eq_ok_iff.1 h
  obtain ⟨u, ls₃, hu, h⟩ := bind_eq_ok_iff.1 h
  obtain ⟨rfl, rfl⟩ := pure_eq_ok_iff.1 h
  obtain ⟨o, xs, rfl, opening, first⟩ := firstArg_sound ha
  obtain ⟨m, ys, rfl, comma, second⟩ := nextArg_sound hb
  obtain ⟨cl, rfl, closing⟩ := argsEnd_sound hu
  exact ⟨a, b, rfl, o, xs ++ m :: ys, cl, by simp, opening, .more first comma (.one second),
    closing⟩

/-- A command of three arguments was read from the list of them. -/
theorem ternaryCommand_sound {make : Expr → Expr → Expr → Kind}
    (h : ternaryCommand c make ls = .ok k rest) :
    ∃ a b d, k = make a b d ∧ Listed [a, b, d] ls rest := by
  obtain ⟨a, ls₁, ha, h⟩ := bind_eq_ok_iff.1 h
  obtain ⟨b, ls₂, hb, h⟩ := bind_eq_ok_iff.1 h
  obtain ⟨d, ls₃, hd, h⟩ := bind_eq_ok_iff.1 h
  obtain ⟨u, ls₄, hu, h⟩ := bind_eq_ok_iff.1 h
  obtain ⟨rfl, rfl⟩ := pure_eq_ok_iff.1 h
  obtain ⟨o, xs, rfl, opening, first⟩ := firstArg_sound ha
  obtain ⟨m, ys, rfl, comma, second⟩ := nextArg_sound hb
  obtain ⟨m', zs, rfl, comma', third⟩ := nextArg_sound hd
  obtain ⟨cl, rfl, closing⟩ := argsEnd_sound hu
  exact ⟨a, b, d, rfl, o, xs ++ m :: (ys ++ m' :: zs), cl, by simp, opening,
    .more first comma (.more second comma' (.one third)), closing⟩

/-- The command of five arguments was read from the list of them. -/
theorem drawRectangle_sound (h : afterCommand .drawRectangle ls = .ok k rest) :
    ∃ a b d w t, k = .drawRectangle a b d w t ∧ Listed [a, b, d, w, t] ls rest := by
  obtain ⟨a, ls₁, ha, h⟩ := bind_eq_ok_iff.1 h
  obtain ⟨b, ls₂, hb, h⟩ := bind_eq_ok_iff.1 h
  obtain ⟨d, ls₃, hd, h⟩ := bind_eq_ok_iff.1 h
  obtain ⟨w, ls₄, hw, h⟩ := bind_eq_ok_iff.1 h
  obtain ⟨t, ls₅, ht, h⟩ := bind_eq_ok_iff.1 h
  obtain ⟨u, ls₆, hu, h⟩ := bind_eq_ok_iff.1 h
  obtain ⟨rfl, rfl⟩ := pure_eq_ok_iff.1 h
  obtain ⟨o, xs₁, rfl, opening, s₁⟩ := firstArg_sound ha
  obtain ⟨m₂, xs₂, rfl, c₂, s₂⟩ := nextArg_sound hb
  obtain ⟨m₃, xs₃, rfl, c₃, s₃⟩ := nextArg_sound hd
  obtain ⟨m₄, xs₄, rfl, c₄, s₄⟩ := nextArg_sound hw
  obtain ⟨m₅, xs₅, rfl, c₅, s₅⟩ := nextArg_sound ht
  obtain ⟨cl, rfl, closing⟩ := argsEnd_sound hu
  refine ⟨a, b, d, w, t, rfl, o,
    xs₁ ++ m₂ :: (xs₂ ++ m₃ :: (xs₃ ++ m₄ :: (xs₄ ++ m₅ :: xs₅))), cl, by simp, opening, ?_,
    closing⟩
  exact .more s₁ c₂ (.more s₂ c₃ (.more s₃ c₄ (.more s₄ c₅ (.one s₅))))

/-- The name of a label is a name. -/
theorem labelName_sound {x : String} (h : labelName ls = .ok x rest) :
    ∃ l, ls = l :: rest ∧ l.token = .ident x := by
  cases ls with
  | nil => cases h
  | cons l ls =>
      rw [labelName] at h
      split at h
      · next token =>
        cases h
        exact ⟨l, rfl, token⟩
      · cases h

/-- A jump is spelled by the lexemes that were taken for it. -/
theorem jump_sound (h : jump ls = .ok k rest) (word : w.token = .command .goTo) :
    ∃ xs, w :: ls = xs ++ rest ∧ k.Spelled xs := by
  obtain ⟨_, ls₁, left, h⟩ := bind_eq_ok_iff.1 h
  obtain ⟨target, ls₂, name, h⟩ := bind_eq_ok_iff.1 h
  obtain ⟨_, ls₃, right, h⟩ := bind_eq_ok_iff.1 h
  obtain ⟨_, ls₄, opening, h⟩ := bind_eq_ok_iff.1 h
  obtain ⟨e, ls₅, condition, h⟩ := bind_eq_ok_iff.1 h
  obtain ⟨_, ls₆, closing, h⟩ := bind_eq_ok_iff.1 h
  obtain ⟨rfl, rfl⟩ := pure_eq_ok_iff.1 h
  obtain ⟨lb, rfl, leftToken⟩ := expect_eq_ok_iff.1 left
  obtain ⟨n, rfl, nameToken⟩ := labelName_sound name
  obtain ⟨rb, rfl, rightToken⟩ := expect_eq_ok_iff.1 right
  obtain ⟨o, rfl, openToken⟩ := expect_eq_ok_iff.1 opening
  obtain ⟨xs, rfl, spelled⟩ := Expr.parse_spelled condition
  obtain ⟨cl, rfl, closeToken⟩ := expect_eq_ok_iff.1 closing
  exact ⟨w :: lb :: n :: rb :: o :: (xs ++ [cl]), by simp,
    .goTo word leftToken nameToken rightToken openToken spelled closeToken⟩

/-- A command in front of its arguments spells the statement. -/
theorem Listed.spelled {args : List Expr} (listed : Listed args ls rest) (args_eq : k.args = args)
    (named : k.command? = some c) (other : c ≠ .goTo) (word : w.token = .command c) :
    ∃ xs, w :: ls = xs ++ rest ∧ k.Spelled xs := by
  subst args_eq
  obtain ⟨o, inner, cl, rfl, opening, items, closing⟩ := listed
  exact ⟨w :: o :: (inner ++ [cl]), by simp, .command named other word opening items closing⟩

/-- A command is spelled by the lexemes that were taken for it. -/
theorem afterCommand_sound (h : afterCommand c ls = .ok k rest) (word : w.token = .command c) :
    ∃ xs, w :: ls = xs ++ rest ∧ k.Spelled xs := by
  cases c with
  | spawn | respawn =>
      obtain ⟨a, b, rfl, listed⟩ := binaryCommand_sound h
      exact listed.spelled rfl rfl (by decide) word
  | color | size | filling =>
      obtain ⟨a, rfl, listed⟩ := unaryCommand_sound h
      exact listed.spelled rfl rfl (by decide) word
  | drawLine | drawCircle =>
      obtain ⟨a, b, d, rfl, listed⟩ := ternaryCommand_sound h
      exact listed.spelled rfl rfl (by decide) word
  | drawRectangle =>
      obtain ⟨a, b, d, w, t, rfl, listed⟩ := drawRectangle_sound h
      exact listed.spelled rfl rfl (by decide) word
  | fill =>
      obtain ⟨_, ls₁, opening, h⟩ := bind_eq_ok_iff.1 h
      obtain ⟨_, ls₂, closing, h⟩ := bind_eq_ok_iff.1 h
      obtain ⟨rfl, rfl⟩ := pure_eq_ok_iff.1 h
      obtain ⟨o, rfl, openToken⟩ := expect_eq_ok_iff.1 opening
      obtain ⟨cl, rfl, closeToken⟩ := argsEnd_sound closing
      have listed : Listed [] (o :: cl :: ls₂) ls₂ :=
        ⟨o, [], cl, rfl, openToken, .nil, closeToken⟩
      exact listed.spelled rfl rfl (by decide) word
  | goTo => exact jump_sound h word

/-- **Statements are read as they are written**: the lexemes that were taken write the statement. -/
theorem parse_sound (h : Kind.parse ls = .ok k rest) :
    ∃ xs, ls = xs ++ rest ∧ k.Spelled xs := by
  have whole {ls} (h : (Kind.expr <$> Expr.parse) ls = .ok k rest) :
      ∃ xs, ls = xs ++ rest ∧ k.Spelled xs := by
    obtain ⟨e, read, rfl⟩ := map_eq_ok_iff.1 h
    obtain ⟨xs, rfl, spelled⟩ := Expr.parse_spelled read
    exact ⟨xs, rfl, .expr spelled⟩
  cases ls with
  | nil => exact whole h
  | cons l ls =>
      rw [Kind.parse] at h
      split at h
      · next c word => exact afterCommand_sound h word
      · next name token =>
        unfold afterName at h
        split at h
        · cases h
          exact ⟨[l], rfl, .label token⟩
        · next next ls' =>
          split at h
          · next arrow =>
            obtain ⟨e, read, rfl⟩ := map_eq_ok_iff.1 h
            obtain ⟨xs, rfl, spelled⟩ := Expr.parse_spelled read
            exact ⟨l :: next :: xs, rfl, .assign token arrow spelled⟩
          · next declared second =>
            split at h
            · next word =>
              cases h
              exact ⟨[l, next], rfl, .declared (word ▸ token) second⟩
            · exact whole h
          · exact whole h
      · exact whole h

/-- No command but a jump has a name. -/
theorem name?_eq_none (named : k.command? = some c) (other : c ≠ .goTo) : k.name? = none := by
  cases k with
  | goTo => exact absurd (Option.some.inj named).symm other
  | assign | label => cases named
  | _ => rfl

/-- A statement is plain if its lexemes can be written. -/
theorem Spelled.plain (h : k.Spelled ls) (all : ∀ l ∈ ls, l.token.Writable) : k.Plain := by
  cases h with
  | command named other word opening items closing =>
      simp only [List.forall_mem_cons, List.forall_mem_append] at all
      obtain ⟨-, -, inner, -⟩ := all
      refine ⟨?_, items.forall (fun e _ _ spelled => spelled.plain) inner⟩
      simp [name?_eq_none named other]
  | goTo word left name right opening condition closing =>
      simp only [List.forall_mem_cons, List.forall_mem_append, name] at all
      obtain ⟨-, -, target, -, -, inner, -⟩ := all
      exact ⟨by simpa [name?] using target, by simpa [args] using condition.plain inner⟩
  | assign name arrow value =>
      simp only [List.forall_mem_cons, name] at all
      obtain ⟨target, -, inner⟩ := all
      exact ⟨by simpa [name?] using target, by simpa [args] using value.plain inner⟩
  | label name =>
      simp only [List.forall_mem_cons, name] at all
      exact ⟨by simpa [name?] using all.1, by simp [args]⟩
  | declared word name =>
      simp only [List.forall_mem_cons, name] at all
      exact ⟨by simpa [name?] using all.2.1, by simp [args]⟩
  | expr whole => exact ⟨by simp [name?], by simpa [args] using whole.plain all⟩

end Stmt.Kind

/-! ### Everything that is read -/

open Segment in
/-- A token that is read can be written. -/
theorem Segment.Reads.writable {w : List Char} {t : Token} (read : Reads w (.token t)) :
    t.Writable := by
  generalize token : Kind.token t = k at read
  cases read with
  | number _ _ =>
      rcases ofDigits_cases w with ⟨n, kind, value⟩ | ⟨kind, -⟩
      · rw [kind] at token
        cases token
        rw [Token.Writable, value]
        exact Int.natCast_nonneg _
      · rw [kind] at token
        cases token
  | string closed =>
      cases token
      rwa [Token.Writable, String.toList_ofList]
  | fixed spelled =>
      cases token
      cases t <;> trivial
  | name start more free =>
      cases token
      refine ⟨⟨_, _, String.toList_ofList, start, more⟩, fun word => ?_⟩
      rw [← map_fst_reserved] at word
      obtain ⟨entry, listed, same⟩ := List.mem_map.1 word
      exact free entry.2 (same ▸ spelling?_of_mem_reserved entry listed)
  | blanks _ _ => cases token
  | comment _ => cases token

/-- All lexemes of a text can be written. -/
theorem Lexed.writable_of_mem {text : String} {l : Lexeme} (found : l ∈ (lex text).lexemes) :
    l.token.Writable := by
  obtain ⟨before, w, behind, split, -⟩ := exists_of_mem_lexemes found
  exact ((Segment.fits_of_cut split).longest rfl).reads.writable

variable {eof : Lexeme} {ls rest : List Lexeme}

/-- What is read from tokens that can be written is a plain expression. -/
theorem Expr.parse_plain {e : Expr} (all : ∀ l ∈ ls, l.token.Writable)
    (h : Expr.parse ls = .ok e rest) : e.Plain := by
  obtain ⟨xs, rfl, spelled⟩ := Expr.parse_spelled h
  exact spelled.plain (List.forall_mem_append.1 all).1

/-- What is read from tokens that can be written is a plain statement. -/
theorem Stmt.parse_plain {s : Stmt} {loc : Location} (all : ∀ l ∈ ls, l.token.Writable)
    (h : Stmt.parse loc ls = .ok s rest) : s.Plain := by
  obtain ⟨k, ls₁, read, h⟩ := bind_eq_ok_iff.1 h
  obtain ⟨_, ls₂, -, h⟩ := bind_eq_ok_iff.1 h
  obtain ⟨rfl, -⟩ := pure_eq_ok_iff.1 h
  obtain ⟨xs, rfl, spelled⟩ := Kind.parse_sound read
  exact spelled.plain (List.forall_mem_append.1 all).1

/-- A line that was read was read by the parser, up to some rest. -/
theorem Parser.exists_of_read {α : Type} {p : Parser α} {line : Line} {a : α}
    (h : p.read line = .ok a) : ∃ rest, p line.lexemes = .ok a rest := by
  unfold Parser.read at h
  split at h
  · next rest read =>
    cases h
    exact ⟨rest, read⟩
  · cases h

/-- All tokens of the first line are tokens of the text. -/
theorem Line.writable_first (all : ∀ l ∈ ls, l.token.Writable) :
    ∀ l ∈ (Line.first eof ls).lexemes, l.token.Writable :=
  fun l member => all l ((List.takeWhile_prefix _).subset member)

/-- A text of one expression is read as a plain one. -/
theorem Expr.read_plain {e : Expr} (all : ∀ l ∈ ls, l.token.Writable)
    (h : Expr.read eof ls = .ok e) : e.Plain := by
  obtain ⟨rest, read⟩ := Parser.exists_of_read h
  exact Expr.parse_plain (Line.writable_first all) read

/-- A text of one statement is read as a plain one. -/
theorem Stmt.read_plain {s : Stmt} (all : ∀ l ∈ ls, l.token.Writable)
    (h : Stmt.read eof ls = .ok s) : s.Plain := by
  obtain ⟨rest, read⟩ := Parser.exists_of_read h
  exact Stmt.parse_plain (Line.writable_first all) read

namespace Line

/-- The statement of a line is plain, and so is one that is read behind an error. -/
theorem parseRest_plain (line : Line) {bound : Nat} (all : ∀ l ∈ ls, l.token.Writable) :
    ∀ s ∈ (line.parseRest bound ls).stmts, s.Plain := by
  induction bound generalizing ls with
  | zero => cases ls <;> simp [Line.parseRest]
  | succ bound ih =>
      cases ls with
      | nil => simp [Line.parseRest]
      | cons l ls =>
          rw [Line.parseRest]
          split
          · next s _ read =>
            simp only [List.mem_singleton, forall_eq]
            exact Stmt.parse_plain all read
          · next cause left read =>
            have inside : resume left <:+ l :: ls :=
              (resume_suffix left).trans ((List.tail_suffix left).trans (Stmt.suffix_of_error read))
            exact ih fun l' member => all l' (inside.subset member)

/-- The lexemes of a line are among those that were split. -/
theorem mem_of_mem_split_go {line : Line} {l : Lexeme} {before : List Lexeme}
    (inLine : l ∈ line.lexemes) (member : line ∈ split.go eof before ls) : l ∈ before ∨ l ∈ ls := by
  induction ls generalizing before with
  | nil =>
      obtain rfl := List.mem_singleton.1 member
      exact .inl (List.mem_reverse.1 inLine)
  | cons l' ls ih =>
      rw [split.go] at member
      split at member
      · rcases List.mem_cons.1 member with rfl | later
        · exact .inl (List.mem_reverse.1 inLine)
        · rcases ih later with inBefore | inRest
          · cases inBefore
          · exact .inr (List.mem_cons_of_mem l' inRest)
      · rcases ih member with inBefore | inRest
        · rcases List.mem_cons.1 inBefore with rfl | earlier
          · exact .inr List.mem_cons_self
          · exact .inl earlier
        · exact .inr (List.mem_cons_of_mem l' inRest)

/-- The lexemes of a line are lexemes of the text. -/
theorem mem_of_mem_split {line : Line} {l : Lexeme} (inLine : l ∈ line.lexemes)
    (member : line ∈ split eof ls) : l ∈ ls :=
  (mem_of_mem_split_go inLine member).resolve_left nofun

end Line

/-- **Everything that is read is plain**, whether or not there are errors before it. -/
theorem Program.parse_plain (all : ∀ l ∈ ls, l.token.Writable) :
    (Program.parse eof ls).program.Plain := by
  simp only [Program.Plain, Parsed.program, Program.parse, List.flatMap_map, List.mem_flatMap]
  rintro s ⟨line, member, read⟩
  exact line.parseRest_plain (fun l inLine => all l (Line.mem_of_mem_split inLine member)) s read

end PenScript
