import PenScript.Parser

/-!
# Written expressions

What it means that a run of lexemes writes a tree, said without the parser. A tree is written in
order: an operator between its operands, the arguments of a call with commas between them, a group
in parentheses or in square brackets. Not every tree may be written without further brackets: an
operator only takes operands that bind tightly enough. And not every tree is shallow enough for the
budget of the parser; `Expr.charge` is what reading a tree takes of it.

## Main definitions

* `BinaryOp.level`, `BinaryOp.AllowsLeft`, `BinaryOp.AllowsRight` — the order of precedence;
* `Expr.Layered` — a tree that has brackets wherever precedence demands them;
* `Expr.Yields` — lexemes that write a tree; `Expr.Written` when the places of its nodes count,
  `Expr.Spelled` when they do not;
* `Expr.unplaced` — a tree without its places;
* `Expr.charge` — the budget that reading a tree takes.

## Main results

* `BinaryOp.allowsLeft_iff`, `BinaryOp.allowsRight_iff`: binding powers are a coding of precedence;
* `Expr.layered_binary` and its companions: a tree is layered if its parts are;
* `Expr.exists_spelled`: every tree can be written.
-/

namespace PenScript

/-! ### Precedence -/

namespace BinaryOp

/-- The class of precedence of an operator, from the loosest to the tightest. -/
def level : BinaryOp → Nat
  | and => 0
  | or => 1
  | eq | ne => 2
  | gt | ge | lt | le => 3
  | add | sub => 4
  | mul | div | mod => 5
  | pow => 6

/-- Whether the left operand of `op` may be an application of `inner` outside of brackets: it has to
bind at least as tightly, and more tightly if `op` leans to the right. -/
def AllowsLeft (op inner : BinaryOp) : Prop :=
  if op = pow then op.level < inner.level else op.level ≤ inner.level

/-- Whether the right operand of `op` may be an application of `inner` outside of brackets: it has
to bind more tightly, and at least as tightly if `op` leans to the right. -/
def AllowsRight (op inner : BinaryOp) : Prop :=
  if op = pow then op.level ≤ inner.level else op.level < inner.level

instance (op inner : BinaryOp) : Decidable (op.AllowsLeft inner) :=
  inferInstanceAs (Decidable (if op = pow then op.level < inner.level else op.level ≤ inner.level))

instance (op inner : BinaryOp) : Decidable (op.AllowsRight inner) :=
  inferInstanceAs (Decidable (if op = pow then op.level ≤ inner.level else op.level < inner.level))

/-- An operator is no longer read into the right operand of the one before it exactly if it may have
that one as its left operand. -/
theorem allowsLeft_iff (op inner : BinaryOp) :
    op.AllowsLeft inner ↔ op.power.1 < inner.power.2 := by
  cases op <;> cases inner <;> decide

/-- An operator is read into the right operand of the one before it exactly if it may stand
there. -/
theorem allowsRight_iff (op inner : BinaryOp) :
    op.AllowsRight inner ↔ op.power.2 ≤ inner.power.1 := by
  cases op <;> cases inner <;> decide

/-- The right power of an operator is at most one more than its left one. -/
theorem power_snd_le (op : BinaryOp) : op.power.2 ≤ op.power.1 + 1 := by
  cases op <;> decide

/-- What an operator leaves to those behind it, an operator of its right operand leaves as well. -/
theorem power_snd_le_of_allowsRight (op inner : BinaryOp) (h : op.AllowsRight inner) :
    op.power.2 ≤ inner.power.2 := by
  revert h
  cases op <;> cases inner <;> decide

end BinaryOp

/-! ### Tokens of an expression -/

/-- The token of a literal. -/
def Token.ofValue : Value → Token
  | .int n => .int n
  | .bool b => .bool b
  | .str s => .str s

/-- The token of an operator in front of its operand. -/
def UnaryOp.token : UnaryOp → Token
  | .not => .bang
  | .neg => .op .sub

/-- The tokens that an operand can start with. -/
def Token.startsOperand : Token → Bool
  | .int _ | .bool _ | .str _ | .ident _ | .bang | .op .sub | .openParen | .openBracket => true
  | _ => false

/-- The two kinds of brackets around a group. -/
inductive Token.Brackets : Token → Token → Prop
  | round : Brackets .openParen .closeParen
  | square : Brackets .openBracket .closeBracket

/-- An opening bracket starts an operand. -/
theorem Token.Brackets.startsOperand {t t' : Token} (h : Brackets t t') :
    t.startsOperand = true := by
  cases h <;> rfl

/-- Brackets are no line breaks. -/
theorem Token.Brackets.ne_endl {t t' : Token} (h : Brackets t t') : t ≠ .endl ∧ t' ≠ .endl := by
  cases h <;> simp

namespace Expr

variable {starts : Location → Lexeme → Prop} {e : Expr} {ls : List Lexeme}

/-! ### Layered trees -/

/-- The operator of a tree that is not in brackets. -/
def op? : Expr → Option BinaryOp
  | binary _ op _ _ => some op
  | _ => none

/-- The operands of a node may be written as they are. The operand of a unary operator holds no
binary operator outside of brackets. -/
def OperandsFit : Expr → Prop
  | binary _ op a b =>
    (∀ inner ∈ a.op?, op.AllowsLeft inner) ∧ ∀ inner ∈ b.op?, op.AllowsRight inner
  | unary _ _ e => e.op? = none
  | _ => True

/-- The operands of every node may be written as they are. -/
def Layered (e : Expr) : Prop :=
  ∀ n ∈ e.preorder, n.OperandsFit

/-- The nodes of a list of trees are those of its trees. -/
theorem mem_preorderAll {n : Expr} {es : List Expr} :
    n ∈ preorderAll es ↔ ∃ e ∈ es, n ∈ e.preorder := by
  induction es with
  | nil => simp [preorderAll]
  | cons e es ih => simp [preorderAll, ih]

/-- Something is true of all nodes of a call if it is true of the call and of those below it. -/
theorem forall_mem_preorder_call {P : Expr → Prop} {loc : Location} {f : String}
    {args : List Expr} :
    (∀ n ∈ (call loc f args).preorder, P n) ↔
      P (call loc f args) ∧ ∀ a ∈ args, ∀ n ∈ a.preorder, P n := by
  simp only [preorder, List.forall_mem_cons, mem_preorderAll]
  constructor
  · rintro ⟨top, below⟩
    exact ⟨top, fun a ha n hn => below n ⟨a, ha, hn⟩⟩
  · rintro ⟨top, below⟩
    refine ⟨top, ?_⟩
    rintro n ⟨a, ha, hn⟩
    exact below a ha n hn

/-- Literals are layered. -/
@[simp] theorem layered_lit (loc : Location) (v : Value) : (lit loc v).Layered := by
  simp [Layered, preorder, OperandsFit]

/-- Variables are layered. -/
@[simp] theorem layered_var (loc : Location) (x : String) : (var loc x).Layered := by
  simp [Layered, preorder, OperandsFit]

/-- A call is layered if its arguments are. -/
@[simp] theorem layered_call {loc : Location} {f : String} {args : List Expr} :
    (call loc f args).Layered ↔ ∀ a ∈ args, a.Layered := by
  simp only [Layered, forall_mem_preorder_call, OperandsFit, true_and]

/-- A group is layered if its inside is. -/
@[simp] theorem layered_group {loc : Location} : (group loc e).Layered ↔ e.Layered := by
  simp [Layered, preorder, OperandsFit]

/-- A sign is layered if its operand is and has no operator of its own. -/
@[simp] theorem layered_unary {loc : Location} {op : UnaryOp} :
    (unary loc op e).Layered ↔ e.op? = none ∧ e.Layered := by
  simp [Layered, preorder, OperandsFit]

/-- An operation is layered if its operands are and their operators may stand where they do. -/
@[simp] theorem layered_binary {loc : Location} {op : BinaryOp} {a b : Expr} :
    (binary loc op a b).Layered ↔
      ((∀ inner ∈ a.op?, op.AllowsLeft inner) ∧ ∀ inner ∈ b.op?, op.AllowsRight inner) ∧
        a.Layered ∧ b.Layered := by
  simp only [Layered, preorder, List.forall_mem_cons, OperandsFit, List.forall_mem_append]

/-! ### Lexemes of a tree -/

/-- Trees one after the other, each as `item` says, with commas between them. -/
inductive Separated (item : Expr → List Lexeme → Prop) : List Expr → List Lexeme → Prop
  | nil : Separated item [] []
  | one {e : Expr} {ls : List Lexeme} (only : item e ls) : Separated item [e] ls
  | more {e e' : Expr} {es : List Expr} {xs ys : List Lexeme} {comma : Lexeme} (first : item e xs)
      (token : comma.token = .comma) (others : Separated item (e' :: es) ys) :
      Separated item (e :: e' :: es) (xs ++ comma :: ys)

/-- `e.Yields starts ls`: the lexemes `ls`, in order, write the tree `e`. How the place of a node
has to do with the first lexeme that writes it is up to `starts`. -/
inductive Yields (starts : Location → Lexeme → Prop) : Expr → List Lexeme → Prop
  | lit {loc : Location} {v : Value} {l : Lexeme} (place : starts loc l)
      (token : l.token = .ofValue v) : Yields starts (.lit loc v) [l]
  | var {loc : Location} {x : String} {l : Lexeme} (place : starts loc l)
      (token : l.token = .ident x) : Yields starts (.var loc x) [l]
  | call {loc : Location} {f : String} {args : List Expr} {l o c : Lexeme} {ls : List Lexeme}
      (place : starts loc l) (token : l.token = .ident f) (opening : o.token = .openParen)
      (items : Separated (Yields starts) args ls) (closing : c.token = .closeParen) :
      Yields starts (.call loc f args) (l :: o :: (ls ++ [c]))
  | group {loc : Location} {e : Expr} {o c : Lexeme} {ls : List Lexeme} (place : starts loc o)
      (brackets : Token.Brackets o.token c.token) (inner : Yields starts e ls) :
      Yields starts (.group loc e) (o :: (ls ++ [c]))
  | unary {loc : Location} {op : UnaryOp} {e : Expr} {l : Lexeme} {ls : List Lexeme}
      (place : starts loc l) (token : l.token = op.token) (operand : Yields starts e ls) :
      Yields starts (.unary loc op e) (l :: ls)
  | binary {loc : Location} {op : BinaryOp} {a b : Expr} {first o : Lexeme} {xs ys : List Lexeme}
      (place : starts loc first) (head : xs.head? = some first) (left : Yields starts a xs)
      (token : o.token = .op op) (right : Yields starts b ys) :
      Yields starts (.binary loc op a b) (xs ++ o :: ys)

/-- The lexemes write the tree, and every node stands where the first of its lexemes does. -/
def Written : Expr → List Lexeme → Prop :=
  Yields fun loc l => loc = l.loc

/-- The lexemes write the tree, wherever its nodes stand. -/
def Spelled : Expr → List Lexeme → Prop :=
  Yields fun _ _ => True

/-- A tree is written from its first lexeme on. -/
theorem Yields.head (h : e.Yields starts ls) :
    ∃ first, ls.head? = some first ∧ starts e.loc first := by
  cases h with
  | lit place => exact ⟨_, rfl, place⟩
  | var place => exact ⟨_, rfl, place⟩
  | call place => exact ⟨_, rfl, place⟩
  | group place => exact ⟨_, rfl, place⟩
  | unary place => exact ⟨_, rfl, place⟩
  | binary place head => exact ⟨_, by simp [head], place⟩

/-- No expression yields nothing. -/
theorem Yields.length_pos (h : e.Yields starts ls) : 0 < ls.length := by
  obtain ⟨first, head, -⟩ := h.head
  cases ls with
  | nil => cases head
  | cons => simp

/-- The first lexeme of a tree is one that an operand can start with. -/
theorem Yields.startsOperand (h : e.Yields starts ls) :
    ∃ first, ls.head? = some first ∧ first.token.startsOperand = true := by
  induction e using inductionOn generalizing ls with
  | lit loc v =>
      cases h with
      | lit _ token => exact ⟨_, rfl, by cases v <;> rw [token] <;> rfl⟩
  | var loc x =>
      cases h with
      | var _ token => exact ⟨_, rfl, by rw [token]; rfl⟩
  | call loc f args =>
      cases h with
      | call _ token => exact ⟨_, rfl, by rw [token]; rfl⟩
  | group loc e =>
      cases h with
      | group _ brackets => exact ⟨_, rfl, brackets.startsOperand⟩
  | unary loc op e =>
      cases h with
      | unary _ token => exact ⟨_, rfl, by cases op <;> rw [token] <;> rfl⟩
  | binary loc op a b iha =>
      cases h with
      | binary _ _ left =>
          obtain ⟨first, head, start⟩ := iha left
          exact ⟨first, by simp [head], start⟩

/-- If each expression can be spelled then so can the list of them. -/
theorem exists_separated {item : Expr → List Lexeme → Prop} {es : List Expr}
    (h : ∀ e ∈ es, ∃ ls, item e ls) : ∃ ls, Separated item es ls := by
  induction es with
  | nil => exact ⟨[], .nil⟩
  | cons e es ih =>
      obtain ⟨xs, hx⟩ := h e List.mem_cons_self
      obtain ⟨ys, hy⟩ := ih fun e' he' => h e' (List.mem_cons_of_mem e he')
      cases es with
      | nil => exact ⟨xs, .one hx⟩
      | cons e' es => exact ⟨xs ++ ⟨.comma, ",", 0, 0, .start⟩ :: ys, .more hx rfl hy⟩

/-- Every tree can be written. -/
theorem exists_spelled (e : Expr) : ∃ ls, e.Spelled ls := by
  have bare (t : Token) : ∃ l : Lexeme, l.token = t := ⟨⟨t, t.text, 0, 0, .start⟩, rfl⟩
  obtain ⟨o, ho⟩ := bare .openParen
  obtain ⟨c, hc⟩ := bare .closeParen
  induction e using inductionOn with
  | lit loc v =>
      obtain ⟨l, hl⟩ := bare (.ofValue v)
      exact ⟨[l], .lit trivial hl⟩
  | var loc x =>
      obtain ⟨l, hl⟩ := bare (.ident x)
      exact ⟨[l], .var trivial hl⟩
  | call loc f args ih =>
      obtain ⟨l, hl⟩ := bare (.ident f)
      obtain ⟨ls, hls⟩ := exists_separated ih
      exact ⟨l :: o :: (ls ++ [c]), .call trivial hl ho hls hc⟩
  | group loc e ih =>
      obtain ⟨ls, hls⟩ := ih
      exact ⟨o :: (ls ++ [c]), .group trivial (ho ▸ hc ▸ .round) hls⟩
  | unary loc op e ih =>
      obtain ⟨l, hl⟩ := bare op.token
      obtain ⟨ls, hls⟩ := ih
      exact ⟨l :: ls, .unary trivial hl hls⟩
  | binary loc op a b iha ihb =>
      obtain ⟨l, hl⟩ := bare (.op op)
      obtain ⟨xs, hx⟩ := iha
      obtain ⟨ys, hy⟩ := ihb
      obtain ⟨first, head, -⟩ := hx.head
      exact ⟨xs ++ l :: ys, .binary trivial head hx hl hy⟩

/-! ### Trees without places -/

mutual

/-- The tree with all its nodes at the start of the text. Two trees are the same up to places if
they agree then. -/
def unplaced : Expr → Expr
  | lit _ v => lit .start v
  | var _ x => var .start x
  | call _ f args => call .start f (unplacedAll args)
  | group _ e => group .start (unplaced e)
  | unary _ op e => unary .start op (unplaced e)
  | binary _ op a b => binary .start op (unplaced a) (unplaced b)

/-- Several trees with all their nodes at the start of the text. -/
def unplacedAll : List Expr → List Expr
  | [] => []
  | e :: es => unplaced e :: unplacedAll es

end

/-! ### What reading takes -/

/-- The number of operators that follow the first operand of a tree outside of brackets, one
behind the other, before the last one of them is applied. -/
def folds : Expr → Nat
  | binary _ _ a _ => folds a + 1
  | _ => 0

mutual

/-- The budget that reading a tree takes: one unit for every operand that is being read, and one
for every operator that was folded into a chain which is not yet at its end. The right operand of a
chain is read while the operators before it, its own one included, are still being charged. -/
def charge : Expr → Nat
  | lit _ _ | var _ _ => 1
  | call _ _ args => chargeAll args + 1
  | group _ e | unary _ _ e => charge e + 1
  | binary _ _ a b => max (charge a) (folds a + 2 + charge b)

/-- The budget that reading several trees takes: each is read with the others no longer charged. -/
def chargeAll : List Expr → Nat
  | [] => 0
  | e :: es => max (charge e) (chargeAll es)

end

/-- A list is charged as its dearest member. -/
theorem chargeAll_le_iff {es : List Expr} {n : Nat} :
    chargeAll es ≤ n ↔ ∀ e ∈ es, e.charge ≤ n := by
  induction es with
  | nil => simp [chargeAll]
  | cons e es ih => rw [chargeAll, Nat.max_le, ih, List.forall_mem_cons]

/-- Every expression is charged. -/
theorem charge_pos (e : Expr) : 0 < e.charge := by
  cases e with
  | binary loc op a b =>
      rw [charge]
      omega
  | _ => simp [charge]

/-- A chain of operators begins with a first operand. -/
theorem folds_eq_zero (h : e.op? = none) : e.folds = 0 := by
  cases e with
  | binary => cases h
  | _ => rfl

end Expr

end PenScript
