import PenScript.Proofs.Grammar

/-!
# What the expression parser reads is written that way

The parser climbs precedence: it reads an operand and then folds operators into it as long as they
bind tightly enough. Whatever it returns is a tree that the lexemes it took write, in order, with
every node at its first lexeme; the tree has brackets wherever precedence demands them; it takes no
more of the budget than there is; and no operator that could still be folded is left behind.

The bound `least` on the operators is what carries the induction. An operator is folded only if the
operator before it no longer wanted it as a part of its right operand, and this is what makes the
tree so far fit as its left operand.

## Main definitions

* `Expr.ReadFrom` — a tree was read from the front of some lexemes within a budget;
* `Expr.ReadAbove` — moreover nothing is left behind that binds tightly enough.

## Main results

* `Expr.parseWithin_sound`: what `Expr.parseWithin` returns was read so;
* `Expr.parsed_trees_obey_the_grammar`: what `Expr.parse` returns.
-/

namespace PenScript

/-! ### Parsers one after the other -/

namespace Parser

variable {α β : Type} {ls rest : List Lexeme}

/-- Behind a parser that succeeds comes the next one. -/
theorem bind_of_ok {p : Parser α} {f : α → Parser β} {a : α} (h : p ls = .ok a rest) :
    (p >>= f) ls = f a rest := by
  change EStateM.bind p f ls = f a rest
  rw [EStateM.bind, h]

/-- Behind a parser that gives up comes nothing. -/
theorem bind_of_error {p : Parser α} {f : α → Parser β} {cause : SyntaxError.Cause}
    (h : p ls = .error cause rest) : (p >>= f) ls = .error cause rest := by
  change EStateM.bind p f ls = .error cause rest
  rw [EStateM.bind, h]

/-- Two parsers succeed one after the other if the second one succeeds on what the first one
leaves. -/
theorem bind_eq_ok_iff {p : Parser α} {f : α → Parser β} {b : β} :
    (p >>= f) ls = .ok b rest ↔ ∃ a ls₁, p ls = .ok a ls₁ ∧ f a ls₁ = .ok b rest := by
  constructor
  · intro both
    cases h : p ls with
    | ok a ls₁ => exact ⟨a, ls₁, rfl, by rwa [bind_of_ok h] at both⟩
    | error cause ls₁ =>
        rw [bind_of_error h] at both
        cases both
  · rintro ⟨a, ls₁, first, second⟩
    rw [bind_of_ok first, second]

/-- Looking at what is left takes nothing. -/
theorem get_bind {f : List Lexeme → Parser β} : (get >>= f) ls = f ls ls := rfl

/-- What was read is changed. -/
theorem map_of_ok {f : α → β} {p : Parser α} {a : α} (h : p ls = .ok a rest) :
    (f <$> p) ls = .ok (f a) rest := by
  change EStateM.map f p ls = .ok (f a) rest
  rw [EStateM.map, h]

/-- What comes out changed was read before. -/
theorem map_eq_ok_iff {f : α → β} {p : Parser α} {b : β} :
    (f <$> p) ls = .ok b rest ↔ ∃ a, p ls = .ok a rest ∧ f a = b := by
  change EStateM.map f p ls = .ok b rest ↔ _
  rw [EStateM.map]
  cases p ls with
  | ok a ls₁ =>
      constructor
      · intro h
        cases h
        exact ⟨a, rfl, rfl⟩
      · rintro ⟨a', h, rfl⟩
        cases h
        rfl
  | error cause ls₁ => simp

/-- Nothing is read, and nothing is taken. -/
theorem pure_eq_ok_iff {a b : α} : (pure a : Parser α) ls = .ok b rest ↔ a = b ∧ ls = rest := by
  change EStateM.Result.ok a ls = .ok b rest ↔ _
  rw [EStateM.Result.ok.injEq]

/-- A token that is there is accepted. -/
theorem accept_of_eq {t : Token} {l : Lexeme} (h : l.token = t) :
    accept t (l :: ls) = .ok true ls := by
  rw [accept, if_pos h]

/-- A token that is not there is passed over. -/
theorem accept_of_ne {t : Token} (h : ∀ l ∈ ls.head?, l.token ≠ t) :
    accept t ls = .ok false ls := by
  cases ls with
  | nil => rfl
  | cons l ls => rw [accept, if_neg (h l rfl)]

/-- A token is next, or it is not. -/
theorem head_eq_or_ne (t : Token) (ls : List Lexeme) :
    (∃ l rest, ls = l :: rest ∧ l.token = t) ∨ ∀ l ∈ ls.head?, l.token ≠ t := by
  cases ls with
  | nil => simp
  | cons l ls =>
      by_cases h : l.token = t
      · exact .inl ⟨l, ls, rfl, h⟩
      · exact .inr fun l' hl' => by cases hl'; exact h

/-- A token that is there is as expected. -/
theorem expect_of_eq {t : Token} {e : Expectation} {l : Lexeme} (h : l.token = t) :
    expect t e (l :: ls) = .ok () ls :=
  bind_of_ok (accept_of_eq h)

/-- A token that is not there is missing. -/
theorem expect_of_ne {t : Token} {e : Expectation} (h : ∀ l ∈ ls.head?, l.token ≠ t) :
    expect t e ls = .error (.expected e) ls :=
  bind_of_ok (accept_of_ne h)

/-- An expected token was there. -/
theorem expect_eq_ok_iff {t : Token} {e : Expectation} {u : Unit} :
    expect t e ls = .ok u rest ↔ ∃ l, ls = l :: rest ∧ l.token = t := by
  obtain ⟨l, ls, rfl, found⟩ | missing := head_eq_or_ne t ls
  · rw [expect_of_eq found, EStateM.Result.ok.injEq]
    constructor
    · rintro ⟨-, rfl⟩
      exact ⟨l, rfl, found⟩
    · rintro ⟨l', h, -⟩
      cases h
      exact ⟨rfl, rfl⟩
  · rw [expect_of_ne missing]
    constructor
    · intro h
      cases h
    · rintro ⟨l, rfl, found⟩
      exact absurd found (missing l rfl)

end Parser

namespace Expr

open PenScript.Parser

variable {budget least : Nat} {ls rest : List Lexeme} {e : Expr}

/-! ### Operators that are left -/

/-- An operator is found if it is next and binds tightly enough. -/
theorem operator?_eq_some_iff {op : BinaryOp} :
    operator? least ls = some (op, rest) ↔
      ∃ l, ls = l :: rest ∧ l.token = .op op ∧ least ≤ op.power.1 := by
  cases ls with
  | nil => simp [operator?]
  | cons l ls =>
      rw [operator?]
      split
      · next op' token =>
        by_cases tight : least ≤ op'.power.1
        · rw [if_pos tight, Option.some.injEq, Prod.mk.injEq]
          constructor
          · rintro ⟨rfl, rfl⟩
            exact ⟨l, rfl, token, tight⟩
          · rintro ⟨l', same, token', -⟩
            cases same
            rw [token] at token'
            cases token'
            exact ⟨rfl, rfl⟩
        · rw [if_neg tight]
          constructor
          · intro h
            cases h
          · rintro ⟨l', same, token', tight'⟩
            cases same
            rw [token] at token'
            cases token'
            exact absurd tight' tight
      · next other =>
        constructor
        · intro h
          cases h
        · rintro ⟨l', same, token, -⟩
          cases same
          exact absurd token (other op)

/-- No operator is found if none is next or it binds too loosely. -/
theorem operator?_eq_none_iff :
    operator? least ls = none ↔ ∀ l ∈ ls.head?, ∀ op, l.token = .op op → op.power.1 < least := by
  cases h : operator? least ls with
  | none =>
      refine ⟨fun _ l hl op token => ?_, fun _ => rfl⟩
      obtain ⟨ls, rfl⟩ : ∃ rest, ls = l :: rest := List.head?_eq_some_iff.1 hl
      refine Nat.lt_of_not_le fun tight => ?_
      have found : operator? least (l :: ls) = some (op, ls) :=
        operator?_eq_some_iff.2 ⟨l, rfl, token, tight⟩
      rw [h] at found
      cases found
  | some found =>
      obtain ⟨l, rfl, token, tight⟩ := operator?_eq_some_iff.1 h
      refine ⟨fun h => (by cases h), fun loose => ?_⟩
      exact absurd (loose l rfl _ token) (Nat.not_lt.2 tight)

/-! ### Trees that were read -/

/-- The tree `e` was read from the front of `ls`, within a budget, and `rest` was left: the lexemes
that were taken write the tree, it needs no further brackets, and it takes no more of the budget
than there is. -/
structure ReadFrom (budget : Nat) (ls : List Lexeme) (e : Expr) (rest : List Lexeme) : Prop where
  written : ∃ yield, ls = yield ++ rest ∧ e.Written yield
  layered : e.Layered
  charge_le : e.charge ≤ budget

/-- The tree `e` was read by taking all the operators that bind at least as tightly as `least`, and
no others: no operator is left that would have been taken, and that of the tree was to be taken. -/
structure ReadAbove (budget least : Nat) (ls : List Lexeme) (e : Expr) (rest : List Lexeme) : Prop
    extends ReadFrom budget ls e rest where
  stops : operator? least rest = none
  tight : ∀ op ∈ e.op?, least ≤ op.power.1

/-- A tree takes at least one lexeme. -/
theorem ReadFrom.length_lt (h : ReadFrom budget ls e rest) : rest.length < ls.length := by
  obtain ⟨yield, rfl, written⟩ := h.written
  have := written.length_pos
  rw [List.length_append]
  omega

/-! ### Operands -/

/-- The arguments of a call are written one after the other up to the closing parenthesis. -/
theorem arguments_sound {argument : Parser Expr}
    (sound : ∀ {ls e rest}, argument ls = .ok e rest → ReadFrom budget ls e rest) {bound : Nat}
    {args : List Expr} (h : arguments argument bound ls = .ok args rest) :
    ∃ inner c, ls = inner ++ c :: rest ∧ c.token = .closeParen ∧
      Separated (Yields fun loc l => loc = l.loc) args inner ∧ args ≠ [] ∧
        ∀ a ∈ args, a.Layered ∧ a.charge ≤ budget := by
  induction bound generalizing ls args with
  | zero => cases h
  | succ bound ih =>
      rw [arguments, bind_eq_ok_iff] at h
      obtain ⟨e, ls₁, first, h⟩ := h
      obtain ⟨⟨xs, rfl, written⟩, layered, charge_le⟩ := sound first
      obtain ⟨c, ls₂, rfl, closing⟩ | open_ := head_eq_or_ne .closeParen ls₁
      · rw [bind_of_ok (accept_of_eq closing), if_pos rfl, pure_eq_ok_iff] at h
        obtain ⟨rfl, rfl⟩ := h
        exact ⟨xs, c, rfl, closing, .one written, by simp, by simp [layered, charge_le]⟩
      · rw [bind_of_ok (accept_of_ne open_), if_neg (by simp), bind_eq_ok_iff] at h
        obtain ⟨_, ls₂, comma, h⟩ := h
        obtain ⟨m, rfl, token⟩ := expect_eq_ok_iff.1 comma
        obtain ⟨args', ls₃, others, h⟩ := bind_eq_ok_iff.1 h
        obtain ⟨rfl, rfl⟩ := pure_eq_ok_iff.1 h
        obtain ⟨inner, c, rfl, closing, items, nonempty, each⟩ := ih others
        refine ⟨xs ++ m :: inner, c, by simp, closing, ?_, by simp, ?_⟩
        · cases args' with
          | nil => exact absurd rfl nonempty
          | cons => exact .more written token items
        · simp only [List.forall_mem_cons]
          exact ⟨⟨layered, charge_le⟩, each⟩

/-- What a name stands for is written from that name on. -/
theorem named_sound {argument : Parser Expr}
    (sound : ∀ {ls e rest}, argument ls = .ok e rest → ReadFrom budget ls e rest) {l : Lexeme}
    {name : String} (token : l.token = .ident name)
    (h : named argument l.loc name ls = .ok e rest) :
    ReadFrom (budget + 1) (l :: ls) e rest ∧ e.op? = none := by
  rw [named] at h
  obtain ⟨o, ls₁, rfl, opening⟩ | variable_ := head_eq_or_ne .openParen ls
  · rw [bind_of_ok (accept_of_eq opening), if_pos rfl] at h
    obtain ⟨c, ls₂, rfl, closing⟩ | some_ := head_eq_or_ne .closeParen ls₁
    · rw [bind_of_ok (accept_of_eq closing), if_pos rfl, pure_eq_ok_iff] at h
      obtain ⟨rfl, rfl⟩ := h
      refine ⟨⟨⟨[l, o, c], rfl, .call rfl token opening .nil closing⟩, by simp, ?_⟩, rfl⟩
      simp [charge, chargeAll]
    · rw [bind_of_ok (accept_of_ne some_), if_neg (by simp), get_bind, bind_eq_ok_iff] at h
      obtain ⟨args, ls₂, listed, last⟩ := h
      obtain ⟨rfl, rfl⟩ := pure_eq_ok_iff.1 last
      obtain ⟨inner, c, rfl, closing, items, -, each⟩ := arguments_sound sound listed
      refine ⟨⟨⟨l :: o :: (inner ++ [c]), by simp, .call rfl token opening items closing⟩, ?_, ?_⟩,
        rfl⟩
      · exact layered_call.2 fun a ha => (each a ha).1
      · rw [charge, Nat.add_le_add_iff_right, chargeAll_le_iff]
        exact fun a ha => (each a ha).2
  · rw [bind_of_ok (accept_of_ne variable_), if_neg (by simp), pure_eq_ok_iff] at h
    obtain ⟨rfl, rfl⟩ := h
    exact ⟨⟨⟨[l], rfl, .var rfl token⟩, by simp, by simp [charge]⟩, rfl⟩

/-- A group is written from its opening bracket to its closing one. -/
theorem grouped_sound {inner : Parser Expr}
    (sound : ∀ {ls e rest}, inner ls = .ok e rest → ReadFrom budget ls e rest) {l : Lexeme}
    {close : Token} (brackets : Token.Brackets l.token close)
    (h : grouped inner l.loc close ls = .ok e rest) :
    ReadFrom (budget + 1) (l :: ls) e rest ∧ e.op? = none := by
  rw [grouped, bind_eq_ok_iff] at h
  obtain ⟨e, ls₁, first, h⟩ := h
  obtain ⟨⟨xs, rfl, written⟩, layered, charge_le⟩ := sound first
  obtain ⟨_, ls₂, closing, last⟩ := bind_eq_ok_iff.1 h
  obtain ⟨c, rfl, rfl⟩ := expect_eq_ok_iff.1 closing
  obtain ⟨rfl, rfl⟩ := pure_eq_ok_iff.1 last
  refine ⟨⟨⟨l :: (xs ++ [c]), by simp, .group rfl brackets written⟩, layered_group.2 layered, ?_⟩,
    rfl⟩
  simpa [charge] using charge_le

/-- Behind a unary operator, an operand is read that no binary operator is folded into. -/
theorem unary_sound {sub : Nat → Parser Expr}
    (sound : ∀ {least ls e rest}, sub least ls = .ok e rest → ReadAbove budget least ls e rest)
    {l : Lexeme} (op : UnaryOp) (token : l.token = op.token)
    (h : (unary l.loc op <$> sub BinaryOp.unreachedPower) ls = .ok e rest) :
    ReadFrom (budget + 1) (l :: ls) e rest ∧ e.op? = none := by
  obtain ⟨e, first, rfl⟩ := map_eq_ok_iff.1 h
  obtain ⟨⟨⟨xs, rfl, written⟩, layered, charge_le⟩, -, tight⟩ := sound first
  have bare : e.op? = none := by
    cases outer : e.op? with
    | none => rfl
    | some op => exact absurd (tight op outer) (Nat.not_le.2 op.power_fst_lt)
  refine ⟨⟨⟨l :: xs, by simp, .unary rfl token written⟩, layered_unary.2 ⟨bare, layered⟩, ?_⟩, rfl⟩
  simpa [charge] using charge_le

/-- An operand is read together with all its lexemes, and no binary operator is outermost in it. -/
theorem operand_sound {sub : Nat → Parser Expr}
    (sound : ∀ {least ls e rest}, sub least ls = .ok e rest → ReadAbove budget least ls e rest)
    (h : operand sub ls = .ok e rest) : ReadFrom (budget + 1) ls e rest ∧ e.op? = none := by
  cases ls with
  | nil => cases h
  | cons l ls =>
      have literal (v : Value) (token : l.token = .ofValue v)
          (h : (pure (lit l.loc v) : Parser Expr) ls = .ok e rest) :
          ReadFrom (budget + 1) (l :: ls) e rest ∧ e.op? = none := by
        obtain ⟨rfl, rfl⟩ := pure_eq_ok_iff.1 h
        exact ⟨⟨⟨[l], rfl, .lit rfl token⟩, by simp, by simp [charge]⟩, rfl⟩
      have inner {ls e rest} (h : sub 0 ls = .ok e rest) : ReadFrom budget ls e rest :=
        (sound h).toReadFrom
      rw [operand] at h
      split at h
      · next n token => exact literal (.int n) token h
      · next b token => exact literal (.bool b) token h
      · next s token => exact literal (.str s) token h
      · next name token => exact named_sound inner token h
      · next token => exact grouped_sound inner (token ▸ .round) h
      · next token => exact grouped_sound inner (token ▸ .square) h
      · next token => exact unary_sound sound .not token h
      · next token => exact unary_sound sound .neg token h
      · cases h

/-! ### Chains of operators -/

section Chain

variable {lhs : Expr} {op : BinaryOp}

/-- Without an operator the chain ends. -/
theorem chain_of_none (stops : operator? least ls = none) :
    chain budget least lhs ls = .ok lhs ls := by
  cases budget <;> simp only [chain, stops]

/-- Without a budget an operator is too deep. -/
theorem chain_zero_of_some (found : operator? least ls = some (op, rest)) :
    chain 0 least lhs ls = .error .tooDeep rest := by
  simp only [chain, found]

/-- An operator takes its right operand, and the chain goes on. -/
theorem chain_succ_of_some (found : operator? least ls = some (op, rest)) :
    chain (budget + 1) least lhs ls =
      (parseWithin budget op.power.2 >>= fun rhs =>
        chain budget least (.binary lhs.loc op lhs rhs)) rest := by
  simp only [chain, found]

end Chain

/-- One more operator is folded into a chain. It binds too loosely for the right operand of the
operator before it, so the tree so far fits as its left operand. -/
theorem ReadFrom.fold {total : Nat} {lhs rhs : Expr} {ls₁ : List Lexeme} {o : Lexeme}
    {op : BinaryOp} (left : ReadFrom total ls lhs (o :: ls₁)) (token : o.token = .op op)
    (loose : ∀ inner ∈ lhs.op?, operator? inner.power.2 (o :: ls₁) = none)
    (right : ReadAbove budget op.power.2 ls₁ rhs rest) (room : lhs.folds + 2 + budget ≤ total) :
    ReadFrom total ls (binary lhs.loc op lhs rhs) rest := by
  obtain ⟨⟨xs, rfl, writes⟩, layered, charge_le⟩ := left
  obtain ⟨⟨⟨ys, rfl, writes'⟩, layered', charge_le'⟩, -, tight⟩ := right
  obtain ⟨first, head, place⟩ := writes.head
  refine ⟨⟨xs ++ o :: ys, by simp, .binary place head writes token writes'⟩, ?_, ?_⟩
  · refine layered_binary.2 ⟨⟨fun inner h => ?_, fun inner h => ?_⟩, layered, layered'⟩
    · exact (op.allowsLeft_iff inner).2 (operator?_eq_none_iff.1 (loose inner h) o rfl op token)
    · exact (op.allowsRight_iff inner).2 (tight inner h)
  · rw [charge]
    omega

/-- Going on behind a tree that was read so far: what is left of the budget and what the operators
of the tree hold of it make up the whole. -/
theorem chain_sound {total : Nat} {lhs : Expr} {ls₁ : List Lexeme}
    (sound : ∀ {b least ls e rest}, b < budget → parseWithin b least ls = .ok e rest →
      ReadAbove b least ls e rest)
    (left : ReadFrom total ls lhs ls₁) (room : lhs.folds + 1 + budget = total)
    (before : ∀ inner ∈ lhs.op?, least ≤ inner.power.1 ∧ operator? inner.power.2 ls₁ = none)
    (h : chain budget least lhs ls₁ = .ok e rest) : ReadAbove total least ls e rest := by
  induction budget generalizing lhs ls₁ with
  | zero =>
      cases found : operator? least ls₁ with
      | some ahead =>
          rw [chain_zero_of_some found] at h
          cases h
      | none =>
          rw [chain_of_none found] at h
          cases h
          exact ⟨left, found, fun op hop => (before op hop).1⟩
  | succ budget ih =>
      cases found : operator? least ls₁ with
      | some ahead =>
          rw [chain_succ_of_some found, bind_eq_ok_iff] at h
          obtain ⟨rhs, ls₃, first, h⟩ := h
          obtain ⟨o, rfl, token, tight⟩ := operator?_eq_some_iff.1 found
          have right := sound (Nat.lt_succ_self budget) first
          have folded := left.fold token (fun inner hin => (before inner hin).2) right (by omega)
          refine ih (fun hb => sound (Nat.lt_succ_of_lt hb)) folded ?_ (fun inner hin => ?_) h
          · rw [folds]
            omega
          · cases hin
            exact ⟨tight, right.stops⟩
      | none =>
          rw [chain_of_none found] at h
          cases h
          exact ⟨left, found, fun op hop => (before op hop).1⟩

/-- **The parser reads what is written.** Within any budget and for any bound on the operators, the
tree that is returned was read from the front of the lexemes. -/
theorem parseWithin_sound (h : parseWithin budget least ls = .ok e rest) :
    ReadAbove budget least ls e rest := by
  induction budget using Nat.strongRecOn generalizing least ls e rest with
  | ind budget ih =>
      cases budget with
      | zero =>
          rw [parseWithin] at h
          cases h
      | succ budget =>
          rw [parseWithin, bind_eq_ok_iff] at h
          obtain ⟨lhs, ls₁, first, h⟩ := h
          obtain ⟨left, bare⟩ := operand_sound (ih budget (Nat.lt_succ_self budget)) first
          refine chain_sound (fun hb => ih _ (Nat.lt_succ_of_lt hb)) left ?_ (by simp [bare]) h
          rw [folds_eq_zero bare]
          omega

/-- **Parsed trees obey the grammar.** Let the parser return a tree. Then it has taken exactly the
lexemes that write the tree in order, a group with either kind of brackets, and each node stands
where the first of its own lexemes does; the lexeme behind them is no binary operator; and every
operand outside of brackets binds as tightly as the order of precedence demands. -/
theorem parsed_trees_obey_the_grammar (h : Expr.parse ls = .ok e rest) :
    (∃ yield, ls = yield ++ rest ∧ e.Written yield) ∧
      (∀ l ∈ rest.head?, ∀ op, l.token ≠ .op op) ∧ e.Layered := by
  have read := parseWithin_sound h
  refine ⟨read.written, fun l hl op token => ?_, read.layered⟩
  exact Nat.not_lt_zero _ (operator?_eq_none_iff.1 read.stops l hl op token)

/-- The lexemes of `-1 ** x ** [y] - f(1)`, and a parenthesis that was never opened. -/
def powerChain : List Lexeme :=
  [⟨.op .sub, "-", 0, 1, ⟨1, 1⟩⟩, ⟨.int .one, "1", 1, 2, ⟨1, 2⟩⟩, ⟨.op .pow, "**", 3, 5, ⟨1, 4⟩⟩,
    ⟨.ident "x", "x", 6, 7, ⟨1, 7⟩⟩, ⟨.op .pow, "**", 8, 10, ⟨1, 9⟩⟩,
    ⟨.openBracket, "[", 11, 12, ⟨1, 12⟩⟩, ⟨.ident "y", "y", 12, 13, ⟨1, 13⟩⟩,
    ⟨.closeBracket, "]", 13, 14, ⟨1, 14⟩⟩, ⟨.op .sub, "-", 15, 16, ⟨1, 16⟩⟩,
    ⟨.ident "f", "f", 17, 18, ⟨1, 18⟩⟩, ⟨.openParen, "(", 18, 19, ⟨1, 19⟩⟩,
    ⟨.int .one, "1", 19, 20, ⟨1, 20⟩⟩, ⟨.closeParen, ")", 20, 21, ⟨1, 21⟩⟩,
    ⟨.closeParen, ")", 21, 22, ⟨1, 22⟩⟩]

/-- The tree of `powerChain`. -/
def powerTree : Expr :=
  .binary ⟨1, 1⟩ .sub
    (.binary ⟨1, 1⟩ .pow (.unary ⟨1, 1⟩ .neg (.lit ⟨1, 2⟩ (.int .one)))
      (.binary ⟨1, 7⟩ .pow (.var ⟨1, 7⟩ "x") (.group ⟨1, 12⟩ (.var ⟨1, 13⟩ "y"))))
    (.call ⟨1, 18⟩ "f" [.lit ⟨1, 20⟩ (.int .one)])

/-- Power leans to the right and binds less tightly than the sign, and the parenthesis is left. -/
theorem powerTree_obeys_the_grammar :
    Expr.parse powerChain = .ok powerTree (powerChain.drop 13) ∧
      (∃ yield, powerChain = yield ++ powerChain.drop 13 ∧ powerTree.Written yield) ∧
      (∀ l ∈ (powerChain.drop 13).head?, ∀ op, l.token ≠ .op op) ∧ powerTree.Layered := by
  have read : Expr.parse powerChain = .ok powerTree (powerChain.drop 13) := rfl
  exact ⟨read, parsed_trees_obey_the_grammar read⟩

end Expr

end PenScript
