import PenScript.Parser
import PenScript.Proofs.ParserSoundness

/-!
# What is written can be read

The converse of what the parser reads: lexemes that write a layered tree are read as that tree, up
to places, if the tree does not take more than the budget.

A tree that ends in the middle of a chain is the start of a larger one, so the induction over trees
cannot speak of whole readings. It says instead that reading from the front of a tree leads behind
it, into the chain the tree is the first part of, with one unit of the budget spent on the operand
and one on each operator folded so far (`Expr.Leads`).

## Main definitions

* `Expr.Leads` — reading a tree leads behind it;
* `Expr.Readable` — a tree that needs no further brackets and no more than the budget.

## Main results

* `Expr.leads_of_layered`: layered trees are led behind;
* `Expr.Readable.parse`: a readable tree is read where it ends.
-/

namespace PenScript

open PenScript.Parser

namespace Expr

variable {starts : Location → Lexeme → Prop} {sub : Nat → Parser Expr} {l : Lexeme}
  {budget least : Nat} {ls rest : List Lexeme} {e : Expr}

/-! ### Operands -/

/-- The token of a literal is read as a literal. -/
theorem operand_lit {v : Value} (token : l.token = .ofValue v) :
    operand sub (l :: rest) = .ok (.lit l.loc v) rest := by
  cases v <;> simp only [operand, token, Token.ofValue]

/-- A name starts a variable or a call. -/
theorem operand_name {x : String} (token : l.token = .ident x) :
    operand sub (l :: rest) = named (sub 0) l.loc x rest := by
  simp only [operand, token]

/-- An opening bracket starts a group. -/
theorem operand_group {close : Token} (brackets : Token.Brackets l.token close) :
    operand sub (l :: rest) = grouped (sub 0) l.loc close rest := by
  generalize token : l.token = t at brackets
  cases brackets <;> simp only [operand, token]

/-- A sign starts a signed operand. -/
theorem operand_unary {op : UnaryOp} (token : l.token = op.token) :
    operand sub (l :: rest) = (unary l.loc op <$> sub BinaryOp.unreachedPower) rest := by
  cases op <;> simp only [operand, token, UnaryOp.token]

/-! ### What may stand behind a tree -/

/-- Behind a tree, no operator stands that would be folded into it, and no parenthesis that would
make a call of its last name. -/
def Ends (least : Nat) (rest : List Lexeme) : Prop :=
  operator? least rest = none ∧ ∀ l ∈ rest.head?, l.token ≠ .openParen

/-- What ends an expression ends one that takes fewer operators. -/
theorem Ends.mono {least' : Nat} (h : Ends least rest) (le : least ≤ least') :
    Ends least' rest := by
  refine ⟨operator?_eq_none_iff.2 fun l hl op token => ?_, h.2⟩
  exact Nat.lt_of_lt_of_le (operator?_eq_none_iff.1 h.1 l hl op token) le

/-- No operator is folded into the operand of a unary one. -/
theorem Ends.unreached (h : ∀ l ∈ rest.head?, l.token ≠ .openParen) :
    Ends BinaryOp.unreachedPower rest :=
  ⟨operator?_eq_none_iff.2 fun _ _ op _ => op.power_fst_lt, h⟩

/-- A tree ends in front of a lexeme that is neither an operator nor an opening parenthesis. -/
theorem ends_cons {t : Token} (token : l.token = t) (operator : ∀ op, t ≠ .op op)
    (call : t ≠ .openParen) : Ends least (l :: rest) := by
  refine ⟨operator?_eq_none_iff.2 fun l' hl' op isOp => ?_, fun l' hl' => ?_⟩
  · cases hl'
    exact absurd (token ▸ isOp) (operator op)
  · cases hl'
    exact token ▸ call

/-- The end of the text ends every expression. -/
theorem ends_nil : Ends least [] :=
  ⟨rfl, by simp⟩

/-- A group ends at its closing bracket. -/
theorem ends_of_brackets {t : Token} (brackets : Token.Brackets t l.token) :
    Ends least (l :: rest) := by
  generalize token : l.token = t' at brackets
  cases brackets <;> exact ends_cons token (by simp) (by simp)

/-! ### Reading a tree -/

/-- The operator of the tree is taken where operators have to bind at least as tightly as
`least`, and so is every operator of its right operand. -/
def Reaches (least : Nat) (e : Expr) : Prop :=
  ∀ op ∈ e.op?, least ≤ op.power.1 ∧ least ≤ op.power.2

/-- Reading from the front of the tree leads behind it, into the chain that the tree starts. -/
def Leads (e : Expr) : Prop :=
  ∀ ⦃ls rest : List Lexeme⦄ ⦃budget least : Nat⦄, e.Spelled ls → e.charge ≤ budget →
    e.Reaches least → (∀ op ∈ e.op?, operator? op.power.2 rest = none) →
    (∀ l ∈ rest.head?, l.token ≠ .openParen) →
    ∃ e', e'.unplaced = e.unplaced ∧
      parseWithin budget least (ls ++ rest) = chain (budget - 1 - e.folds) least e' rest

/-- The tree is read as a whole where it ends. -/
theorem Leads.read (leads : e.Leads) (spelled : e.Spelled ls) (fits : e.charge ≤ budget)
    (reaches : e.Reaches least) (ends : Ends least rest) :
    ∃ e', e'.unplaced = e.unplaced ∧ parseWithin budget least (ls ++ rest) = .ok e' rest := by
  obtain ⟨e', same, h⟩ := leads spelled fits reaches
    (fun op hop => (ends.mono (reaches op hop).2).1) ends.2
  exact ⟨e', same, h.trans (chain_of_none ends.1)⟩

/-- An operand leads behind itself if it is read as one. -/
theorem leads_of_operand {e' : Expr} (bare : e.op? = none) (fits : e.charge ≤ budget)
    (h : operand (parseWithin (budget - 1)) ls = .ok e' rest) :
    parseWithin budget least ls = chain (budget - 1 - e.folds) least e' rest := by
  obtain ⟨budget, rfl⟩ : ∃ b, budget = b + 1 :=
    Nat.exists_eq_succ_of_ne_zero (Nat.ne_of_gt (Nat.lt_of_lt_of_le e.charge_pos fits))
  rw [parseWithin, folds_eq_zero bare]
  exact bind_of_ok h

/-- Every argument takes at least one lexeme. -/
theorem Separated.length_le {es : List Expr} (h : Separated (Yields starts) es ls) :
    es.length ≤ ls.length := by
  induction h with
  | nil => simp
  | one only => exact only.length_pos
  | more first token others ih =>
      have := first.length_pos
      simp only [List.length_cons, List.length_append] at ih ⊢
      omega

/-- A list of expressions starts with an operand. -/
theorem Separated.startsOperand {es : List Expr} (h : Separated (Yields starts) es ls)
    (nonempty : es ≠ []) : ∃ first, ls.head? = some first ∧ first.token.startsOperand = true := by
  cases h with
  | nil => exact absurd rfl nonempty
  | one only => exact only.startsOperand
  | more first =>
      obtain ⟨l, head, start⟩ := first.startsOperand
      exact ⟨l, by simp [head], start⟩

/-- The arguments of a call are read if each of them is. -/
theorem arguments_of_separated {argument : Parser Expr} {args : List Expr} {inner : List Lexeme}
    {c : Lexeme} {bound : Nat}
    (each : ∀ a ∈ args, ∀ {ls rest}, a.Spelled ls → Ends 0 rest →
      ∃ a', a'.unplaced = a.unplaced ∧ argument (ls ++ rest) = .ok a' rest)
    (items : Separated Spelled args inner) (nonempty : args ≠ []) (closing : c.token = .closeParen)
    (enough : args.length ≤ bound) :
    ∃ args', unplacedAll args' = unplacedAll args ∧
      arguments argument bound (inner ++ c :: rest) = .ok args' rest := by
  induction items generalizing bound with
  | nil => exact absurd rfl nonempty
  | @one e xs only =>
      obtain ⟨bound, rfl⟩ : ∃ b, bound = b + 1 := ⟨bound - 1, by simp at enough; omega⟩
      have ends : Ends 0 (c :: rest) := ends_cons closing (by simp) (by simp)
      obtain ⟨e', same, h⟩ := each e (by simp) only ends
      refine ⟨[e'], by simp [unplacedAll, same], ?_⟩
      rw [arguments, bind_of_ok h, bind_of_ok (accept_of_eq closing)]
      rfl
  | @more e e₂ es xs ys comma first token others ih =>
      obtain ⟨bound, rfl⟩ : ∃ b, bound = b + 1 := ⟨bound - 1, by simp at enough; omega⟩
      have ends : Ends 0 (comma :: (ys ++ c :: rest)) := ends_cons token (by simp) (by simp)
      obtain ⟨e', same, h⟩ := each e (by simp) first ends
      have enough' : (e₂ :: es).length ≤ bound := by simpa using enough
      obtain ⟨es', same', h'⟩ :=
        ih (fun a ha => each a (List.mem_cons_of_mem e ha)) (by simp) enough'
      refine ⟨e' :: es', by rw [unplacedAll, same, same']; rfl, ?_⟩
      have open_ : ∀ l ∈ (comma :: (ys ++ c :: rest)).head?, l.token ≠ .closeParen := by
        simp [token]
      rw [List.append_assoc, List.cons_append, arguments, bind_of_ok h,
        bind_of_ok (accept_of_ne open_), if_neg (by simp), bind_of_ok (expect_of_eq token),
        bind_of_ok h']
      rfl

/-- A call is read from the name on. -/
theorem named_of_call {argument : Parser Expr} {loc loc' : Location} {f : String} {args : List Expr}
    {o c : Lexeme} {inner : List Lexeme}
    (each : ∀ a ∈ args, ∀ {ls rest}, a.Spelled ls → Ends 0 rest →
      ∃ a', a'.unplaced = a.unplaced ∧ argument (ls ++ rest) = .ok a' rest)
    (opening : o.token = .openParen) (items : Separated Spelled args inner)
    (closing : c.token = .closeParen) :
    ∃ e', e'.unplaced = (call loc f args).unplaced ∧
      named argument loc' f (o :: (inner ++ c :: rest)) = .ok e' rest := by
  rw [named, bind_of_ok (accept_of_eq opening), if_pos rfl]
  by_cases empty : args = []
  · subst empty
    cases items
    rw [List.nil_append, bind_of_ok (accept_of_eq closing), if_pos rfl]
    exact ⟨call loc' f [], rfl, rfl⟩
  · have enough : args.length ≤ (inner ++ c :: rest).length + 1 := by
      have := items.length_le
      rw [List.length_append]
      omega
    have open_ : ∀ l ∈ (inner ++ c :: rest).head?, l.token ≠ .closeParen := by
      obtain ⟨first, head, start⟩ := items.startsOperand empty
      rw [List.head?_append, head]
      rintro l hl token
      cases hl
      rw [token] at start
      cases start
    obtain ⟨args', same, h⟩ := arguments_of_separated each items empty closing enough
    refine ⟨call loc' f args', by rw [unplaced, same, unplaced], ?_⟩
    rw [bind_of_ok (accept_of_ne open_), if_neg (by simp), get_bind, bind_of_ok h]
    rfl

/-- What is allowed as a left operand is taken wherever the operator is. -/
theorem reaches_of_allowsLeft {op : BinaryOp} (fits : ∀ inner ∈ e.op?, op.AllowsLeft inner)
    (le : least ≤ op.power.1) : e.Reaches least := by
  intro inner hin
  have loose := (op.allowsLeft_iff inner).1 (fits inner hin)
  have := inner.power_snd_le
  exact ⟨by omega, by omega⟩

/-- What is allowed as a right operand is taken behind the operator. -/
theorem reaches_of_allowsRight {op : BinaryOp} (fits : ∀ inner ∈ e.op?, op.AllowsRight inner) :
    e.Reaches op.power.2 := by
  intro inner hin
  exact ⟨(op.allowsRight_iff inner).1 (fits inner hin),
    op.power_snd_le_of_allowsRight inner (fits inner hin)⟩

/-- **Every layered tree is led behind.** The induction is over the tree; the left operand of an
operator is the start of the same chain, and the right one is read as a whole. -/
theorem leads_of_layered (layered : e.Layered) : e.Leads := by
  induction e using inductionOn with
  | lit loc v =>
      intro ls rest budget least spelled fits _ _ _
      cases spelled with
      | @lit _ _ l _ token =>
          exact ⟨.lit l.loc v, rfl, leads_of_operand rfl fits (operand_lit token)⟩
  | var loc x =>
      intro ls rest budget least spelled fits _ _ noCall
      cases spelled with
      | @var _ _ l _ token =>
          refine ⟨.var l.loc x, rfl, leads_of_operand rfl fits ?_⟩
          rw [List.singleton_append, operand_name token, named, bind_of_ok (accept_of_ne noCall)]
          rfl
  | call loc f args ih =>
      intro ls rest budget least spelled fits _ _ _
      cases spelled with
      | @call _ _ _ l o c inner _ token opening items closing =>
          rw [charge] at fits
          have each : ∀ a ∈ args, ∀ {ls rest}, a.Spelled ls → Ends 0 rest →
              ∃ a', a'.unplaced = a.unplaced ∧
                parseWithin (budget - 1) 0 (ls ++ rest) = .ok a' rest := by
            intro a ha ls rest spelled ends
            have fits' : a.charge ≤ budget - 1 := chargeAll_le_iff.1 (by omega) a ha
            exact (ih a ha (layered_call.1 layered a ha)).read spelled fits'
              (fun _ _ => ⟨Nat.zero_le _, Nat.zero_le _⟩) ends
          obtain ⟨e', same, h⟩ := named_of_call each opening items closing
          refine ⟨e', same, leads_of_operand rfl (by rwa [charge]) ?_⟩
          simpa [operand_name token] using h
  | group loc e ih =>
      intro ls rest budget least spelled fits _ _ _
      cases spelled with
      | @group _ _ o c inner _ brackets spelled =>
          rw [charge] at fits
          have ends : Ends 0 (c :: rest) := ends_of_brackets brackets
          obtain ⟨e', same, h⟩ := (ih (layered_group.1 layered)).read spelled
            (Nat.le_sub_of_add_le fits) (fun _ _ => ⟨Nat.zero_le _, Nat.zero_le _⟩) ends
          refine ⟨.group o.loc e', by rw [unplaced, unplaced, same],
            leads_of_operand rfl (by rwa [charge]) ?_⟩
          rw [List.cons_append, List.append_assoc, operand_group brackets, grouped,
            List.singleton_append, bind_of_ok h, bind_of_ok (expect_of_eq rfl)]
          rfl
  | unary loc op e ih =>
      intro ls rest budget least spelled fits _ _ noCall
      cases spelled with
      | @unary _ _ _ l inner _ token spelled =>
          rw [charge] at fits
          obtain ⟨bare, layered⟩ := layered_unary.1 layered
          have reaches : e.Reaches BinaryOp.unreachedPower := by simp [Reaches, bare]
          obtain ⟨e', same, h⟩ := (ih layered).read spelled (Nat.le_sub_of_add_le fits) reaches
            (.unreached noCall)
          refine ⟨.unary l.loc op e', by rw [unplaced, unplaced, same],
            leads_of_operand rfl (by rwa [charge]) ?_⟩
          rw [List.cons_append, operand_unary token]
          exact map_of_ok h
  | binary loc op a b iha ihb =>
      intro ls rest budget least spelled fits reaches stops noCall
      cases spelled with
      | @binary _ _ _ _ first o xs ys _ _ left token right =>
          rw [charge, Nat.max_le] at fits
          obtain ⟨⟨fitsLeft, fitsRight⟩, layeredA, layeredB⟩ := layered_binary.1 layered
          obtain ⟨taken, taken'⟩ := reaches op rfl
          -- the left operand starts the chain, and its own operator does not want this one
          have loose : ∀ inner ∈ a.op?, operator? inner.power.2 (o :: (ys ++ rest)) = none := by
            intro inner hin
            refine operator?_eq_none_iff.2 fun l hl op' token' => ?_
            cases hl
            rw [token] at token'
            cases token'
            exact (op.allowsLeft_iff inner).1 (fitsLeft inner hin)
          obtain ⟨a', sameA, ha⟩ := iha layeredA left fits.1 (reaches_of_allowsLeft fitsLeft taken)
            loose (by simp [token])
          -- the operator is folded, and takes all of the right operand
          have found : operator? least (o :: (ys ++ rest)) = some (op, ys ++ rest) :=
            operator?_eq_some_iff.2 ⟨o, rfl, token, taken⟩
          obtain ⟨k, hk⟩ : ∃ k, budget - 1 - a.folds = k + 1 :=
            ⟨budget - 1 - a.folds - 1, by omega⟩
          obtain ⟨b', sameB, hb⟩ := (ihb layeredB).read right (show b.charge ≤ k by omega)
            (reaches_of_allowsRight fitsRight) ⟨stops op rfl, noCall⟩
          refine ⟨.binary a'.loc op a' b', by rw [unplaced, unplaced, sameA, sameB], ?_⟩
          rw [List.append_assoc, List.cons_append, ha, hk, chain_succ_of_some found, bind_of_ok hb]
          rw [folds, show budget - 1 - (a.folds + 1) = k by omega]

/-- A tree that has brackets wherever precedence demands them, and does not take more than the whole
budget. -/
structure Readable (e : Expr) : Prop where
  layered : e.Layered
  charge_le : e.charge ≤ maxNesting

/-- A readable tree is read where it ends. -/
theorem Readable.parse (readable : e.Readable) (spelled : e.Spelled ls) (ends : Ends 0 rest) :
    ∃ e', e'.unplaced = e.unplaced ∧ Expr.parse (ls ++ rest) = .ok e' rest :=
  (leads_of_layered readable.layered).read spelled readable.charge_le
    (fun _ _ => ⟨Nat.zero_le _, Nat.zero_le _⟩) ends

end Expr

end PenScript
