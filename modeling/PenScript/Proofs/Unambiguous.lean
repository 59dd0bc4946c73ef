import PenScript.Proofs.Plain

/-!
# Written forms are unambiguous

Expressions and statements are shown as S-expressions: a word, or a head and what it applies to in
parentheses. The same head may stand for different things, such as the two minus signs, and a string
literal may hold anything but a quote, line breaks and parentheses included. Still a text is the
written form of one program only, up to places.

The argument has two halves. The lexer cuts the written form of an S-expression into its tokens, so
that equal texts have equal tokens; and tokens determine the S-expression, because no S-expression
is a proper start of another one. What is left is to see that different trees, up to places, have
different S-expressions.

## Main definitions

* `Form` — S-expressions over tokens; `Form.chars`, `Form.tokens` — their written form and tokens;
* `Expr.form`, `Stmt.Kind.form` — the S-expression of a tree.

## Main results

* `Form.Sound.cutsTo`: a written form is cut into its tokens;
* `Form.Sound.tokens_append_inj`: tokens determine an S-expression and what is behind it;
* `Expr.unplaced_of_form`, `Stmt.Kind.unplaced_of_form`: S-expressions determine trees;
* `Program.written_forms_are_unambiguous`: texts determine programs, up to places.
-/

namespace PenScript

open Segment (Stops CutsTo)

/-! ### S-expressions -/

/-- An S-expression: a word, or a head and what it applies to. -/
inductive Form where
  | atom (t : Token)
  | list (head : Token) (items : List Form)

namespace Form

mutual

/-- The written form. -/
def chars : Form → List Char
  | atom t => t.written
  | list head items => '(' :: (head.written ++ (spaced items ++ [')']))

/-- Several written forms, each behind a space. -/
def spaced : List Form → List Char
  | [] => []
  | f :: fs => ' ' :: (chars f ++ spaced fs)

end

mutual

/-- The tokens of the written form. -/
def tokens : Form → List Token
  | atom t => [t]
  | list head items => .openParen :: head :: (tokensAll items ++ [.closeParen])

/-- The tokens of several written forms. -/
def tokensAll : List Form → List Token
  | [] => []
  | f :: fs => tokens f ++ tokensAll fs

end

/-- All tokens can be written, and no word is a parenthesis. -/
inductive Sound : Form → Prop
  | atom {t : Token} (writable : t.Writable) (open_ : t ≠ .openParen) (close : t ≠ .closeParen) :
      Sound (atom t)
  | list {head : Token} {items : List Form} (writable : head.Writable)
      (each : ∀ f ∈ items, Sound f) : Sound (list head items)

/-! ### Written forms are cut into tokens -/

variable {f f' : Form} {fs fs' : List Form} {rest : List Char} {ts : List Token}

/-- No written form starts with a blank. -/
theorem Sound.isGap_head (sound : f.Sound) :
    ∀ d ∈ (f.chars ++ rest).head?, Segment.isGap d = false := by
  cases sound with
  | atom writable _ _ => exact fun d first => Segment.isGap_head_written writable d first
  | list _ _ =>
      intro d first
      obtain rfl : '(' = d := Option.some.inj first
      rfl

/-- A token ends in front of a list of forms, as it does behind it. -/
theorem stops_spaced (stops : ∀ d ∈ rest.head?, Stops d) :
    ∀ d ∈ (spaced fs ++ rest).head?, Stops d := by
  cases fs with
  | nil => exact stops
  | cons f fs =>
      intro d first
      obtain rfl : ' ' = d := Option.some.inj first
      exact .inl rfl

/-- A sign that no longer one starts with is cut off in front of anything. -/
theorem cutsTo_sign {c : Char} {t : Token} (h : CutsTo rest ts)
    (sign : ∀ cs, Segment.sign? c cs = some (t, 0)) : CutsTo (c :: rest) (t :: ts) := by
  have read : Segment.Reads [c] (.token t) := Segment.reads_sign (sign [])
  refine h.token (read.longest fun d more k' _ longer => ?_)
  have other : Segment.Start.sign.Admits c := Segment.other_of_sign? (sign [])
  obtain ⟨t', same, -⟩ := (Segment.reads_cons_iff other).1 longer
  rw [sign] at same
  cases same

/-- A list of forms is cut into the tokens of all of them. -/
theorem cutsTo_spaced (sound : ∀ f ∈ fs, f.Sound)
    (each : ∀ f ∈ fs, ∀ {rest ts}, CutsTo rest ts → (∀ d ∈ rest.head?, Stops d) →
      CutsTo (f.chars ++ rest) (f.tokens ++ ts))
    (h : CutsTo rest ts) (stops : ∀ d ∈ rest.head?, Stops d) :
    CutsTo (spaced fs ++ rest) (tokensAll fs ++ ts) := by
  induction fs with
  | nil => exact h
  | cons f fs ih =>
      obtain ⟨first, others⟩ := List.forall_mem_cons.1 sound
      obtain ⟨cuts, cutsAll⟩ := List.forall_mem_cons.1 each
      rw [spaced, tokensAll, List.cons_append, List.append_assoc, List.append_assoc]
      have behind := cuts (ih others cutsAll) (stops_spaced stops)
      exact behind.blanks (w := [' ']) (by simp [Segment.isGap]) first.isGap_head

/-- **A written form is cut into its tokens.** -/
theorem Sound.cutsTo (sound : f.Sound) (h : CutsTo rest ts)
    (stops : ∀ d ∈ rest.head?, Stops d) : CutsTo (f.chars ++ rest) (f.tokens ++ ts) := by
  induction sound generalizing rest ts with
  | atom writable _ _ => exact h.written writable stops
  | @list head items writable each ih =>
      have close : CutsTo (')' :: rest) (.closeParen :: ts) :=
        h.written (t := .closeParen) trivial stops
      have ends : ∀ d ∈ (')' :: rest).head?, Stops d := by simp [Stops]
      have inner := cutsTo_spaced each (fun f hf _ _ => ih f hf) close ends
      have whole : CutsTo ('(' :: _) (.openParen :: _) :=
        cutsTo_sign (inner.written writable (stops_spaced ends)) fun _ => rfl
      simpa [chars, tokens] using whole

/-! ### Tokens determine forms -/

/-- No form starts with a closing parenthesis. -/
theorem Sound.tokens_ne_close (sound : f.Sound) {r r' : List Token} :
    f.tokens ++ r ≠ .closeParen :: r' := by
  cases sound with
  | atom _ _ close => exact fun same => close (List.cons.inj same).1
  | list _ _ => exact fun same => nomatch (List.cons.inj same).1

/-- The tokens up to a closing bracket tell a list of forms. -/
theorem tokensAll_append_inj {r r' : List Token} (sound : ∀ f ∈ fs, f.Sound)
    (sound' : ∀ f ∈ fs', f.Sound)
    (each : ∀ f ∈ fs, ∀ {f' r r'}, Sound f' → f.tokens ++ r = f'.tokens ++ r' → f = f' ∧ r = r')
    (same : tokensAll fs ++ .closeParen :: r = tokensAll fs' ++ .closeParen :: r') :
    fs = fs' ∧ r = r' := by
  induction fs generalizing fs' with
  | nil =>
      cases fs' with
      | nil => exact ⟨rfl, (List.cons.inj same).2⟩
      | cons f' fs' =>
          simp only [tokensAll, List.append_assoc, List.nil_append] at same
          exact absurd same.symm (sound' f' List.mem_cons_self).tokens_ne_close
  | cons f fs ih =>
      cases fs' with
      | nil =>
          simp only [tokensAll, List.append_assoc, List.nil_append] at same
          exact absurd same (sound f List.mem_cons_self).tokens_ne_close
      | cons f' fs' =>
          rw [tokensAll, tokensAll, List.append_assoc, List.append_assoc] at same
          obtain ⟨rfl, others⟩ :=
            each f List.mem_cons_self (sound' f' List.mem_cons_self) same
          obtain ⟨rfl, behind⟩ := ih (fun g hg => sound g (List.mem_cons_of_mem f hg))
            (fun g hg => sound' g (List.mem_cons_of_mem f hg))
            (fun g hg => each g (List.mem_cons_of_mem f hg)) others
          exact ⟨rfl, behind⟩

/-- **Tokens determine a form** and what is behind it. -/
theorem Sound.tokens_append_inj {r r' : List Token} (sound : f.Sound) (sound' : f'.Sound)
    (same : f.tokens ++ r = f'.tokens ++ r') : f = f' ∧ r = r' := by
  induction sound generalizing f' r r' with
  | atom writable open_ close =>
      cases sound' with
      | atom _ _ _ =>
          obtain ⟨rfl, behind⟩ := List.cons.inj same
          exact ⟨rfl, behind⟩
      | list _ _ => exact absurd (List.cons.inj same).1 open_
  | list writable each ih =>
      cases sound' with
      | atom _ open_ _ => exact absurd (List.cons.inj same).1.symm open_
      | list _ each' =>
          simp only [tokens, List.cons_append, List.append_assoc, List.nil_append] at same
          obtain ⟨rfl, inner⟩ := List.cons.inj (List.cons.inj same).2
          obtain ⟨rfl, behind⟩ := tokensAll_append_inj each each' (fun f hf _ _ _ => ih f hf) inner
          exact ⟨rfl, behind⟩

end Form

/-! ### Forms of expressions -/

/-- Lists that agree under `f` agree under `g`, if their members do. -/
theorem map_eq_of_map_eq {α β γ : Type} {f : α → β} {g : α → γ} {xs ys : List α}
    (each : ∀ x ∈ xs, ∀ y, f x = f y → g x = g y) (same : xs.map f = ys.map f) :
    xs.map g = ys.map g := by
  induction xs generalizing ys with
  | nil =>
      cases ys with
      | nil => rfl
      | cons y ys => cases same
  | cons x xs ih =>
      cases ys with
      | nil => cases same
      | cons y ys =>
          obtain ⟨first, others⟩ := List.cons.inj same
          rw [List.map_cons, List.map_cons, each x List.mem_cons_self y first,
            ih (fun z hz => each z (List.mem_cons_of_mem x hz)) others]

namespace Expr

mutual

/-- The S-expression of an expression. -/
def form : Expr → Form
  | lit _ v => .atom (.ofValue v)
  | var _ x => .atom (.ident x)
  | call _ f args => .list (.ident "call") (.atom (.ident f) :: forms args)
  | group _ e => .list (.ident "group") [form e]
  | unary _ op e => .list op.token [form e]
  | binary _ op a b => .list (.op op) [form a, form b]

/-- The S-expressions of several expressions. -/
def forms : List Expr → List Form
  | [] => []
  | e :: es => form e :: forms es

end

variable {e e' : Expr} {es es' : List Expr}

/-- Expressions have forms one by one. -/
theorem forms_eq_map (es : List Expr) : forms es = es.map form := by
  induction es with
  | nil => rfl
  | cons e es ih => rw [forms, ih, List.map_cons]

/-- The text of a list of expressions is that of their forms. -/
theorem toList_spacedText (each : ∀ e ∈ es, e.text.toList = e.form.chars) :
    (spacedText es).toList = Form.spaced (forms es) := by
  induction es with
  | nil => rfl
  | cons e es ih =>
      obtain ⟨first, others⟩ := List.forall_mem_cons.1 each
      simp [spacedText, forms, Form.spaced, first, ih others]

/-- The written form of an expression is the one of its S-expression. -/
theorem toList_text (e : Expr) : e.text.toList = e.form.chars := by
  induction e using inductionOn with
  | lit loc v => cases v <;> rfl
  | var loc x => rfl
  | call loc f args ih =>
      simp [text, form, Form.chars, Form.spaced, toList_spacedText ih, Token.written, Token.text]
  | group loc e ih => simp [text, form, Form.chars, Form.spaced, ih, Token.written, Token.text]
  | unary loc op e ih =>
      cases op <;>
        simp [text, form, Form.chars, Form.spaced, ih, Token.written, Token.text, UnaryOp.token,
          UnaryOp.symbol, BinaryOp.symbol]
  | binary loc op a b iha ihb =>
      simp [text, form, Form.chars, Form.spaced, iha, ihb, Token.written, Token.text]

/-- The S-expression of a plain expression is sound. -/
theorem Plain.sound (plain : e.Plain) : e.form.Sound := by
  have call : IsName "call" := by decide
  have group : IsName "group" := by decide
  induction e using inductionOn with
  | lit loc v => cases v <;> exact .atom (plain_lit.1 plain) nofun nofun
  | var loc x => exact .atom (plain_var.1 plain) nofun nofun
  | call loc f args ih =>
      obtain ⟨name, each⟩ := plain_call.1 plain
      refine .list call (List.forall_mem_cons.2 ⟨.atom name nofun nofun, ?_⟩)
      rw [forms_eq_map]
      exact List.forall_mem_map.2 fun a ha => ih a ha (each a ha)
  | group loc e ih =>
      exact .list group (by simpa using ih (plain_group.1 plain))
  | unary loc op e ih =>
      exact .list (by cases op <;> trivial) (by simpa using ih (plain_unary.1 plain))
  | binary loc op a b iha ihb =>
      obtain ⟨left, right⟩ := plain_binary.1 plain
      exact .list trivial (by simpa using ⟨iha left, ihb right⟩)

/-- A value is known from its token. -/
theorem ofValue_inj {v v' : Value} (same : Token.ofValue v = Token.ofValue v') : v = v' := by
  cases v <;> cases v' <;> cases same <;> rfl

/-- Expressions lose their places one by one. -/
theorem unplacedAll_eq_map (es : List Expr) : unplacedAll es = es.map unplaced := by
  induction es with
  | nil => rfl
  | cons e es ih => rw [unplacedAll, ih, List.map_cons]

/-- **S-expressions determine expressions**, up to places. The two minus signs are told apart by the
number of their operands. -/
theorem unplaced_of_form (same : e.form = e'.form) : e.unplaced = e'.unplaced := by
  induction e using inductionOn generalizing e' with
  | lit loc v =>
      cases e' with
      | lit loc' v' => rw [unplaced, unplaced, ofValue_inj (Form.atom.inj same)]
      | var loc' x => cases v <;> cases Form.atom.inj same
      | _ => cases same
  | var loc x =>
      cases e' with
      | lit loc' v => cases v <;> cases Form.atom.inj same
      | var loc' x' =>
          cases same
          rfl
      | _ => cases same
  | call loc f args ih =>
      cases e' with
      | call loc' f' args' =>
          obtain ⟨-, items⟩ := Form.list.inj same
          obtain ⟨name, others⟩ := List.cons.inj items
          cases name
          rw [forms_eq_map, forms_eq_map] at others
          rw [unplaced, unplaced, unplacedAll_eq_map, unplacedAll_eq_map,
            map_eq_of_map_eq (fun a ha _ => ih a ha) others]
      | unary loc' op e' => cases op <;> cases (Form.list.inj same).1
      | _ => simp [form] at same
  | group loc e ih =>
      cases e' with
      | group loc' e' =>
          obtain ⟨-, items⟩ := Form.list.inj same
          rw [unplaced, unplaced, ih (List.cons.inj items).1]
      | unary loc' op e' => cases op <;> cases (Form.list.inj same).1
      | _ => simp [form] at same
  | unary loc op e ih =>
      cases e' with
      | unary loc' op' e' =>
          obtain ⟨head, items⟩ := Form.list.inj same
          obtain rfl : op = op' := by cases op <;> cases op' <;> first | rfl | cases head
          rw [unplaced, unplaced, ih (List.cons.inj items).1]
      | lit loc' v => cases same
      | var loc' x => cases same
      | binary loc' op' a b => simp [form] at same
      | _ => cases op <;> cases (Form.list.inj same).1
  | binary loc op a b iha ihb =>
      cases e' with
      | unary loc' op' e' => simp [form] at same
      | binary loc' op' a' b' =>
          obtain ⟨head, items⟩ := Form.list.inj same
          obtain ⟨left, others⟩ := List.cons.inj items
          cases head
          rw [unplaced, unplaced, iha left, ihb (List.cons.inj others).1]
      | _ => cases same

end Expr

/-! ### Forms of statements -/

namespace Stmt.Kind

/-- The S-expression of a statement. -/
def form : Kind → Form
  | assign x e => .list .assign [.atom (.ident x), e.form]
  | label l => .list (.ident "label") [.atom (.ident l)]
  | goTo l e => .list (.command .goTo) [.atom (.ident l), e.form]
  | expr e => e.form
  | spawn x y => .list (.command .spawn) [x.form, y.form]
  | respawn x y => .list (.command .respawn) [x.form, y.form]
  | color e => .list (.command .color) [e.form]
  | size e => .list (.command .size) [e.form]
  | drawLine dx dy d => .list (.command .drawLine) [dx.form, dy.form, d.form]
  | drawCircle dx dy r => .list (.command .drawCircle) [dx.form, dy.form, r.form]
  | drawRectangle dx dy d w h =>
    .list (.command .drawRectangle) [dx.form, dy.form, d.form, w.form, h.form]
  | fill => .list (.command .fill) []
  | filling e => .list (.command .filling) [e.form]

/-- The head of the S-expression, unless the statement is an expression. -/
def head? : Kind → Option Token
  | expr _ => none
  | assign .. => some .assign
  | label _ => some (.ident "label")
  | k => k.command?.map .command

/-- What the head applies to: the name of the statement, and its expressions. -/
def items (k : Kind) : List Form :=
  (k.name?.map fun x => .atom (.ident x)).toList ++ k.args.map Expr.form

variable {k k' : Kind} {t : Token}

/-- A statement with a head is a list. -/
theorem form_eq (h : k.head? = some t) : k.form = .list t k.items := by
  cases k <;> cases h <;> rfl

/-- The written form of a statement is the one of its S-expression. -/
theorem toList_text (k : Kind) : k.text.toList = k.form.chars := by
  cases k with
  | expr e => exact e.toList_text
  | _ =>
      simp [text, text.command, form, Form.chars, Form.spaced, Expr.spacedText, Expr.toList_text,
        Token.written, Token.text, Command.name]

/-- The S-expression of a plain statement is sound. -/
theorem Plain.sound (plain : k.Plain) : k.form.Sound := by
  have label : IsName "label" := by decide
  have each : ∀ f ∈ k.items, f.Sound := by
    refine List.forall_mem_append.2 ⟨?_, List.forall_mem_map.2 fun e he => (plain.args e he).sound⟩
    intro f member
    simp only [Option.mem_toList, Option.map_eq_some_iff] at member
    obtain ⟨x, named, rfl⟩ := member
    exact .atom (plain.name x named) nofun nofun
  cases k with
  | expr e => exact (plain.args e List.mem_cons_self).sound
  | label x => exact .list label each
  | _ => exact .list trivial each

/-- With the same head, the items determine the statement, up to places. -/
theorem unplaced_of_items (h : k.head? = some t) (h' : k'.head? = some t)
    (same : k.items = k'.items) : k.unplaced = k'.unplaced := by
  cases k <;> cases h <;> cases k' <;> cases h'
  all_goals
    simp only [items, name?, args, Option.map_some, Option.map_none, Option.toList_some,
      Option.toList_none, List.map_cons, List.map_nil, List.cons_append, List.nil_append,
      List.cons.injEq, Form.atom.injEq, Token.ident.injEq, and_true] at same
  all_goals grind [unplaced, mapArgs, Expr.unplaced_of_form]

/-- No expression has the head of a statement. -/
theorem expr_form_ne (e : Expr) (h : k.head? = some t) : e.form ≠ k.form := by
  have heads : t = .assign ∨ t = .ident "label" ∨ ∃ c, t = .command c := by
    cases k <;> cases h <;> simp
  rw [form_eq h]
  obtain rfl | rfl | ⟨c, rfl⟩ := heads
  all_goals
    cases e with
    | unary loc op e => cases op <;> simp [Expr.form, UnaryOp.token]
    | _ => simp [Expr.form]

/-- **S-expressions determine statements**, up to places. -/
theorem unplaced_of_form (same : k.form = k'.form) : k.unplaced = k'.unplaced := by
  have exists_expr {k : Kind} (h : k.head? = none) : ∃ e, k = .expr e := by
    cases k <;> first | exact ⟨_, rfl⟩ | cases h
  cases h : k.head? with
  | none =>
      obtain ⟨e, rfl⟩ := exists_expr h
      cases h' : k'.head? with
      | none =>
          obtain ⟨e', rfl⟩ := exists_expr h'
          exact congrArg Kind.expr (Expr.unplaced_of_form same)
      | some t => exact absurd same (expr_form_ne e h')
  | some t =>
      cases h' : k'.head? with
      | none =>
          obtain ⟨e', rfl⟩ := exists_expr h'
          exact absurd same.symm (expr_form_ne e' h)
      | some t' =>
          rw [form_eq h, form_eq h'] at same
          obtain ⟨rfl, items⟩ := Form.list.inj same
          exact unplaced_of_items h h' items

end Stmt.Kind

/-! ### Texts determine programs -/

namespace Form

variable {f f' : Form} {fs fs' : List Form}

/-- Equal written forms belong to equal S-expressions. -/
theorem eq_of_chars (sound : f.Sound) (sound' : f'.Sound) (same : f.chars = f'.chars) :
    f = f' := by
  have cuts := sound.cutsTo .nil nofun
  have cuts' := sound'.cutsTo .nil nofun
  rw [same] at cuts
  exact (sound.tokens_append_inj sound' ((cuts {}).2.symm.trans (cuts' {}).2)).1

/-- Written forms, one a line, are cut into their tokens, with a line break behind each but the
last. -/
theorem cutsTo_lines (sound : ∀ f ∈ fs, f.Sound) :
    CutsTo (['\n'].intercalate (fs.map chars)) ([.endl].intercalate (fs.map tokens)) := by
  induction fs with
  | nil => exact .nil
  | cons f fs ih =>
      obtain ⟨first, others⟩ := List.forall_mem_cons.1 sound
      cases fs with
      | nil =>
          have cuts := first.cutsTo .nil nofun
          simpa using cuts
      | cons g fs =>
          have behind : CutsTo ('\n' :: _) (.endl :: _) := cutsTo_sign (ih others) fun _ => rfl
          have cuts := first.cutsTo behind (by simp [Stops])
          simpa using cuts

/-- A form has tokens. -/
theorem tokens_ne_nil (f : Form) (ts : List Token) : f.tokens ++ ts ≠ [] := by
  cases f <;> exact List.cons_ne_nil _ _

/-- The tokens of the lines behind the first one. -/
def tokensBehind : List Form → List Token
  | [] => []
  | f :: fs => .endl :: [.endl].intercalate ((f :: fs).map tokens)

/-- A line is written in front of the lines behind it. -/
theorem intercalate_tokens_cons (f : Form) (fs : List Form) :
    [.endl].intercalate ((f :: fs).map tokens) = f.tokens ++ tokensBehind fs := by
  cases fs with
  | nil => simp [tokensBehind]
  | cons g fs => simp [tokensBehind]

/-- Tokens determine the S-expressions of several lines. -/
theorem eq_of_lines (sound : ∀ f ∈ fs, f.Sound) (sound' : ∀ f ∈ fs', f.Sound)
    (same : [.endl].intercalate (fs.map tokens) = [.endl].intercalate (fs'.map tokens)) :
    fs = fs' := by
  induction fs generalizing fs' with
  | nil =>
      cases fs' with
      | nil => rfl
      | cons f' fs' =>
          rw [intercalate_tokens_cons] at same
          exact absurd same.symm (f'.tokens_ne_nil _)
  | cons f fs ih =>
      rw [intercalate_tokens_cons] at same
      obtain ⟨first, others⟩ := List.forall_mem_cons.1 sound
      cases fs' with
      | nil => exact absurd same (f.tokens_ne_nil _)
      | cons f' fs' =>
          rw [intercalate_tokens_cons] at same
          obtain ⟨first', others'⟩ := List.forall_mem_cons.1 sound'
          obtain ⟨rfl, behind⟩ := first.tokens_append_inj first' same
          cases fs with
          | nil =>
              cases fs' with
              | nil => rfl
              | cons g fs' => cases behind
          | cons g fs =>
              cases fs' with
              | nil => cases behind
              | cons g' fs' => rw [ih others others' (List.cons.inj behind).2]

end Form

namespace Program

variable {e e' : Expr} {s s' : Stmt} {p p' : Program}

/-- The text of a program is that of its lines. -/
theorem toList_text (p : Program) :
    p.text.toList = ['\n'].intercalate ((p.stmts.map fun s => s.kind.form).map Form.chars) := by
  rw [text, String.toList_intercalate, List.map_map, List.map_map]
  congr 1
  exact List.map_congr_left fun s _ => s.kind.toList_text

/-- Plain programs of one text are one program, but for the places. -/
theorem unplaced_of_text (plain : p.Plain) (plain' : p'.Plain) (same : p.text = p'.text) :
    p.unplaced = p'.unplaced := by
  have sound {p : Program} (plain : p.Plain) :
      ∀ f ∈ p.stmts.map fun s => s.kind.form, f.Sound :=
    List.forall_mem_map.2 fun s hs => Stmt.Kind.Plain.sound (plain s hs)
  have cuts := Form.cutsTo_lines (sound plain)
  have cuts' := Form.cutsTo_lines (sound plain')
  rw [← toList_text, same, toList_text] at cuts
  have forms := Form.eq_of_lines (sound plain) (sound plain') ((cuts {}).2.symm.trans (cuts' {}).2)
  have stmts : p.stmts.map Stmt.unplaced = p'.stmts.map Stmt.unplaced := by
    refine map_eq_of_map_eq (fun s _ s' form => ?_) forms
    rw [Stmt.unplaced, Stmt.unplaced, Stmt.Kind.unplaced_of_form form]
  rw [unplaced, unplaced, stmts]

/-- **Written forms are unambiguous.** Expressions, statements and programs that are shown alike are
the same up to places, if all their literals and names can be written; and whatever is read from a
text is of that kind, whether or not there are errors in it. -/
theorem written_forms_are_unambiguous :
    (∀ e e' : Expr, e.Plain → e'.Plain → e.text = e'.text → e.unplaced = e'.unplaced) ∧
      (∀ s s' : Stmt, s.Plain → s'.Plain → s.text = s'.text → s.unplaced = s'.unplaced) ∧
      (∀ p p' : Program, p.Plain → p'.Plain → p.text = p'.text → p.unplaced = p'.unplaced) ∧
      ∀ text : String, (∀ e, Expr.read (lex text).eof (lex text).lexemes = .ok e → e.Plain) ∧
        (∀ s, Stmt.read (lex text).eof (lex text).lexemes = .ok s → s.Plain) ∧
        (Program.parse (lex text).eof (lex text).lexemes).program.Plain := by
  refine ⟨fun e e' plain plain' same => ?_, fun s s' plain plain' same => ?_,
    fun p p' plain plain' same => unplaced_of_text plain plain' same, fun text => ⟨?_, ?_, ?_⟩⟩
  · have chars : e.form.chars = e'.form.chars := by
      rw [← Expr.toList_text, same, Expr.toList_text]
    exact Expr.unplaced_of_form (Form.eq_of_chars plain.sound plain'.sound chars)
  · have chars : s.kind.form.chars = s'.kind.form.chars := by
      rw [← Stmt.Kind.toList_text, ← Stmt.text, same, Stmt.text, Stmt.Kind.toList_text]
    have form := Form.eq_of_chars plain.sound plain'.sound chars
    rw [Stmt.unplaced, Stmt.unplaced, Stmt.Kind.unplaced_of_form form]
  · exact fun e read => Expr.read_plain (fun l => Lexed.writable_of_mem) read
  · exact fun s read => Stmt.read_plain (fun l => Lexed.writable_of_mem) read
  · exact parse_plain fun l => Lexed.writable_of_mem

/-- The lines `x <- "a)` and `(b"` of one statement, and the line `-x - 1` of another, from a given
line of a text on. -/
def lookalikes (line : Nat) : Program where
  stmts :=
    [⟨⟨line, 1⟩, .assign "x" (.lit ⟨line, 6⟩ (.str "a)\n(b"))⟩,
      ⟨⟨line + 2, 1⟩, .expr (.binary ⟨line + 2, 1⟩ .sub
        (.unary ⟨line + 2, 1⟩ .neg (.var ⟨line + 2, 2⟩ "x"))
        (.lit ⟨line + 2, 6⟩ (.int .one)))⟩]

/-- A line break and parentheses inside of a string literal, and both minus signs. -/
theorem lookalikes_are_one_program :
    (lookalikes 1).text = "(<- x \"a)\n(b\")\n(- (- x) 1)" ∧
      (lookalikes 1).unplaced = (lookalikes 7).unplaced := by
  have x : IsName "x" := by decide
  have plain (line : Nat) : (lookalikes line).Plain := by
    refine List.forall_mem_cons.2 ⟨⟨?_, ?_⟩, List.forall_mem_cons.2 ⟨⟨?_, ?_⟩, nofun⟩⟩
    all_goals
      simp [Stmt.Kind.name?, Stmt.Kind.args, x, Token.ofValue, Token.Writable, Integer.one]
  have same : (lookalikes 1).text = (lookalikes 7).text := rfl
  exact ⟨by decide +kernel, written_forms_are_unambiguous.2.2.1 _ _ (plain 1) (plain 7) same⟩

end Program

end PenScript
