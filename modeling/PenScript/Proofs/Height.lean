import PenScript.Proofs.ParserCompleteness

/-!
# How high a tree can get

Everything that walks a tree recurses over it, so what can be read should not be too high. The
budget of the parser bounds the height of a tree, but is not a bound itself. An operator of a chain
is only charged for what follows it, and not for the first operand, which was read before; that
operand may have used the whole budget for its own height, and every operator that is folded behind
it lifts it by one more level. If the operand is a group, what is inside may be such a chain again,
with one unit less. So the height is bounded by a sum over the budget, and there are trees that
reach it.

## Main definitions

* `Expr.height` — the number of nodes on the longest way from the root to a leaf;
* `Expr.maxHeight` — the greatest height within a budget;
* `Expr.Balanced` — a tree that is no higher than its charge;
* `Expr.tower` — a tree of the greatest height.

## Main results

* `Expr.height_le_maxHeight`: no tree is higher than its charge allows;
* `Stmt.parse_gives`, `Program.parse_gives`: what is true of every expression that is read is true
  of the arguments of every statement;
* `Expr.heights_of_parsed_trees`: the heights of everything that is read;
* `Expr.exists_isRead_height_eq`: the greatest height is reached.
-/

namespace PenScript

open PenScript.Parser

namespace Expr

variable {e : Expr} {n : Nat}

/-! ### Height -/

mutual

/-- The number of nodes on the longest way from the root of a tree to a leaf. -/
def height : Expr → Nat
  | lit _ _ | var _ _ => 1
  | call _ _ args => heightAll args + 1
  | group _ e | unary _ _ e => height e + 1
  | binary _ _ a b => max (height a) (height b) + 1

/-- The height of the highest of several trees. -/
def heightAll : List Expr → Nat
  | [] => 0
  | e :: es => max (height e) (heightAll es)

end

/-- A list is as high as its highest member. -/
theorem heightAll_le_iff {es : List Expr} : heightAll es ≤ n ↔ ∀ e ∈ es, e.height ≤ n := by
  induction es with
  | nil => simp [heightAll]
  | cons e es ih => rw [heightAll, Nat.max_le, ih, List.forall_mem_cons]

/-- Places do not count for the height. -/
theorem height_unplaced (e : Expr) : e.unplaced.height = e.height := by
  induction e using inductionOn with
  | lit | var => rfl
  | call loc f args ih =>
      have same : heightAll (unplacedAll args) = heightAll args := by
        induction args with
        | nil => rfl
        | cons a args ihs =>
            simp only [List.forall_mem_cons] at ih
            rw [unplacedAll, heightAll, ih.1, ihs ih.2, heightAll]
      simp only [unplaced, height, same]
  | group loc e ih => simp only [unplaced, height, ih]
  | unary loc op e ih => simp only [unplaced, height, ih]
  | binary loc op a b iha ihb => simp only [unplaced, height, iha, ihb]

/-! ### Height within a budget -/

/-- The greatest height of a tree within a budget. The first operand of a chain takes one unit and
leaves the others to what is below it; as many operators as there are units left, but one for the
last operand, lift it further. -/
def maxHeight : (budget : Nat) → Nat
  | 0 => 0
  | budget + 1 => maxHeight budget + max 1 budget

/-- The greatest height is quadratic in the budget. -/
theorem maxHeight_succ (n : Nat) : maxHeight (n + 1) = 1 + n * (n + 1) / 2 := by
  have double : 2 * maxHeight (n + 1) = 2 + n * (n + 1) := by
    induction n with
    | zero => rfl
    | succ n ih =>
        have next : maxHeight (n + 2) = maxHeight (n + 1) + (n + 1) := by
          rw [maxHeight, Nat.max_eq_right (Nat.succ_pos n)]
        rw [next, Nat.mul_add, ih]
        simp only [Nat.mul_add, Nat.add_mul]
        omega
  omega

/-- A chain leaves room for its last operand. -/
theorem folds_lt_charge (e : Expr) : e.folds + 1 ≤ max 1 (e.charge - 1) := by
  cases e with
  | binary loc op a b =>
      have := b.charge_pos
      rw [folds, charge]
      omega
  | _ => exact Nat.le_max_left 1 _

/-- One step of the sum pays for a first operand and for the operators behind it. -/
theorem maxHeight_step (h : e.charge ≤ n) :
    maxHeight (n - 1) + (e.folds + 1) ≤ maxHeight n := by
  obtain ⟨n, rfl⟩ : ∃ m, n = m + 1 :=
    Nat.exists_eq_succ_of_ne_zero (Nat.ne_of_gt (Nat.lt_of_lt_of_le e.charge_pos h))
  have chain := e.folds_lt_charge
  rw [maxHeight, Nat.add_sub_cancel]
  omega

/-- A tree consists of what is below its first operand, of that operand and of the operators behind
it. The left operand of an operator starts the same chain, so the budget stays and the chain gets
shorter; everything else is read with a smaller budget. -/
theorem height_le_add_folds (h : e.charge ≤ n) : e.height ≤ maxHeight (n - 1) + (e.folds + 1) := by
  induction e using inductionOn generalizing n with
  | lit | var =>
      rw [height]
      omega
  | call loc f args ih =>
      rw [charge] at h
      have each : heightAll args ≤ maxHeight (n - 1) := by
        refine heightAll_le_iff.2 fun a ha => ?_
        have fits : a.charge ≤ n - 1 := chargeAll_le_iff.1 (by omega) a ha
        exact Nat.le_trans (ih a ha fits) (maxHeight_step fits)
      rw [height]
      omega
  | group loc e ih | unary loc op e ih =>
      rw [charge] at h
      have fits : e.charge ≤ n - 1 := by omega
      have inner := Nat.le_trans (ih fits) (maxHeight_step fits)
      rw [height]
      omega
  | binary loc op a b iha ihb =>
      rw [charge, Nat.max_le] at h
      have left := iha h.1
      have fits : b.charge ≤ n - 1 := by omega
      have right := Nat.le_trans (ihb fits) (maxHeight_step fits)
      rw [height, folds]
      omega

/-- **No tree is higher than its charge allows.** -/
theorem height_le_maxHeight (h : e.charge ≤ n) : e.height ≤ maxHeight n :=
  Nat.le_trans (height_le_add_folds h) (maxHeight_step h)

/-! ### Trees that are as high as their charge -/

/-- What an operator of the tree has on its left takes less of the budget than the operator itself
together with what it has on its right. -/
def LeansRight : Expr → Prop
  | binary _ _ a b => a.charge < a.folds + 2 + b.charge
  | _ => True

/-- All operators of the tree lean to the right. Trees without binary operators do, chains of
literals and names do, and so do chains that only have brackets in their last operand. -/
def Balanced (e : Expr) : Prop :=
  ∀ n ∈ e.preorder, n.LeansRight

/-- A call is balanced if its arguments are. -/
theorem balanced_call {loc : Location} {f : String} {args : List Expr} :
    (call loc f args).Balanced ↔ ∀ a ∈ args, a.Balanced := by
  simp only [Balanced, forall_mem_preorder_call, LeansRight, true_and]

/-- A group is balanced if its inside is. -/
theorem balanced_group {loc : Location} : (group loc e).Balanced ↔ e.Balanced := by
  simp [Balanced, preorder, LeansRight]

/-- A sign is balanced if its operand is. -/
theorem balanced_unary {loc : Location} {op : UnaryOp} :
    (unary loc op e).Balanced ↔ e.Balanced := by
  simp [Balanced, preorder, LeansRight]

/-- An operation is balanced if its operands are and the left one is charged no more than the right
one makes up for. -/
theorem balanced_binary {loc : Location} {op : BinaryOp} {a b : Expr} :
    (binary loc op a b).Balanced ↔
      a.charge < a.folds + 2 + b.charge ∧ a.Balanced ∧ b.Balanced := by
  simp only [Balanced, preorder, List.forall_mem_cons, LeansRight, List.forall_mem_append]

/-- A balanced tree is no higher than its charge: each node adds to the charge of what is below. -/
theorem Balanced.height_le_charge (balanced : e.Balanced) : e.height ≤ e.charge := by
  induction e using inductionOn with
  | lit | var => exact Nat.le_refl 1
  | call loc f args ih =>
      have each : heightAll args ≤ chargeAll args := by
        refine heightAll_le_iff.2 fun a ha => ?_
        have low := ih a ha (balanced_call.1 balanced a ha)
        exact Nat.le_trans low (chargeAll_le_iff.1 (Nat.le_refl _) a ha)
      rw [height, charge]
      omega
  | group loc e ih =>
      have low := ih (balanced_group.1 balanced)
      rw [height, charge]
      omega
  | unary loc op e ih =>
      have low := ih (balanced_unary.1 balanced)
      rw [height, charge]
      omega
  | binary loc op a b iha ihb =>
      obtain ⟨leans, left, right⟩ := balanced_binary.1 balanced
      have lowLeft := iha left
      have lowRight := ihb right
      rw [height, charge]
      omega

/-! ### Trees of the greatest height -/

/-- The literal one. -/
def one : Expr :=
  lit .start (.int .one)

/-- A tree to which one is added `k` times. -/
def addOnes (e : Expr) : (k : Nat) → Expr
  | 0 => e
  | k + 1 => binary .start .add (e.addOnes k) one

/-- A tree that uses up a budget of `n + 1` on its height: as many ones as possible are added to a
group of a tree that uses up one unit less. -/
def tower : (n : Nat) → Expr
  | 0 => one
  | n + 1 => (group .start (tower n)).addOnes n

section AddOnes

variable {k : Nat}

/-- Every one that is added lifts the tree. -/
theorem height_addOnes : (e.addOnes k).height = e.height + k := by
  have high : 0 < e.height := by
    cases e <;> simp [height]
  induction k with
  | zero => rfl
  | succ k ih =>
      rw [addOnes, height, ih, one, height]
      omega

/-- Every one that is added is a fold. -/
theorem folds_addOnes : (e.addOnes k).folds = e.folds + k := by
  induction k with
  | zero => rfl
  | succ k ih =>
      rw [addOnes, folds, ih]
      omega

/-- Ones are added free of charge as long as there is room for one of them. -/
theorem charge_addOnes (bare : e.op? = none) (room : k + 2 ≤ n) (h : e.charge ≤ n) :
    (e.addOnes k).charge ≤ n := by
  induction k with
  | zero => exact h
  | succ k ih =>
      have first := ih (by omega)
      rw [addOnes, charge, folds_addOnes, folds_eq_zero bare, one, charge]
      omega

/-- Ones can be added to what has no operator. -/
theorem layered_addOnes (bare : e.op? = none) (layered : e.Layered) : (e.addOnes k).Layered := by
  induction k with
  | zero => exact layered
  | succ k ih =>
      refine layered_binary.2 ⟨⟨fun inner hin => ?_, by simp [one, op?]⟩, ih, by simp [one]⟩
      cases k with
      | zero => simp [addOnes, bare] at hin
      | succ k =>
          cases hin
          decide

end AddOnes

/-- Towers are layered. -/
theorem tower_layered (n : Nat) : (tower n).Layered := by
  induction n with
  | zero => exact layered_lit _ _
  | succ n ih => exact layered_addOnes rfl (layered_group.2 ih)

/-- A tower is charged a level a floor. -/
theorem charge_tower_le (n : Nat) : (tower n).charge ≤ n + 1 := by
  induction n with
  | zero => exact Nat.le_refl 1
  | succ n ih =>
      refine charge_addOnes rfl (Nat.le_refl _) ?_
      rw [charge]
      omega

/-- A tower is as high as any tree within its budget. -/
theorem height_tower (n : Nat) : (tower n).height = maxHeight (n + 1) := by
  induction n with
  | zero => rfl
  | succ n ih =>
      rw [tower, height_addOnes, height, ih, maxHeight.eq_2 (n + 1)]
      omega

end Expr

/-! ### Expressions of a statement -/

namespace Parser

variable {α β : Type} {P : α → Prop} {Q : β → Prop}

/-- Whatever the parser returns has the property. -/
def Gives (p : Parser α) (P : α → Prop) : Prop :=
  ∀ ⦃ls a rest⦄, p ls = .ok a rest → P a

/-- What the second of two parsers gives. -/
theorem Gives.bind {p : Parser α} {f : α → Parser β} (first : Gives p P)
    (second : ∀ a, P a → Gives (f a) Q) : Gives (p >>= f) Q := by
  intro ls b rest h
  obtain ⟨a, ls₁, ha, hb⟩ := bind_eq_ok_iff.1 h
  exact second a (first ha) hb

/-- What a parser returns does not matter where it is not used. -/
theorem Gives.skip {p : Parser α} {q : Parser β} (second : Gives q Q) :
    Gives (p >>= fun _ => q) Q :=
  Gives.bind (P := fun _ => True) (fun _ _ _ _ => trivial) fun _ _ => second

/-- What a parser gives, changed. -/
theorem Gives.map {p : Parser α} {f : α → β} (h : Gives p P) (imp : ∀ a, P a → Q (f a)) :
    Gives (f <$> p) Q := by
  intro ls b rest hb
  obtain ⟨a, ha, rfl⟩ := map_eq_ok_iff.1 hb
  exact imp a (h ha)

/-- A parser that reads nothing gives its value. -/
theorem gives_pure {a : α} (h : P a) : Gives (pure a) P := by
  intro ls b rest hb
  obtain ⟨rfl, rfl⟩ := pure_eq_ok_iff.1 hb
  exact h

end Parser

section Arguments

variable {P : Expr → Prop} (each : Gives Expr.parse P)

include each

namespace Stmt.Kind

/-- The first argument is an expression that was read. -/
theorem firstArg_gives (c : Command) : Gives (firstArg c) P :=
  .skip each

/-- So are the arguments behind it. -/
theorem nextArg_gives (c : Command) : Gives (nextArg c) P :=
  .skip each

/-- So is the argument of a command with one of them. -/
theorem unaryCommand_gives (c : Command) {make : Expr → Kind}
    (args_eq : ∀ a, (make a).args = [a]) :
    Gives (unaryCommand c make) fun k => ∀ e ∈ k.args, P e := by
  refine .bind (firstArg_gives each c) fun a ha => .skip (gives_pure ?_)
  simp [args_eq, ha]

/-- So are the arguments of a command with two of them. -/
theorem binaryCommand_gives (c : Command) {make : Expr → Expr → Kind}
    (args_eq : ∀ a b, (make a b).args = [a, b]) :
    Gives (binaryCommand c make) fun k => ∀ e ∈ k.args, P e := by
  refine .bind (firstArg_gives each c) fun a ha => .bind (nextArg_gives each c) fun b hb => ?_
  refine .skip (gives_pure ?_)
  simp [args_eq, ha, hb]

/-- So are the arguments of a command with three of them. -/
theorem ternaryCommand_gives (c : Command) {make : Expr → Expr → Expr → Kind}
    (args_eq : ∀ a b d, (make a b d).args = [a, b, d]) :
    Gives (ternaryCommand c make) fun k => ∀ e ∈ k.args, P e := by
  refine .bind (firstArg_gives each c) fun a ha => .bind (nextArg_gives each c) fun b hb => ?_
  refine .bind (nextArg_gives each c) fun d hd => .skip (gives_pure ?_)
  simp [args_eq, ha, hb, hd]

/-- So are the arguments of every command. -/
theorem afterCommand_gives (c : Command) :
    Gives (afterCommand c) fun k => ∀ e ∈ k.args, P e := by
  cases c with
  | spawn => exact binaryCommand_gives each .spawn fun _ _ => rfl
  | respawn => exact binaryCommand_gives each .respawn fun _ _ => rfl
  | color => exact unaryCommand_gives each .color fun _ => rfl
  | size => exact unaryCommand_gives each .size fun _ => rfl
  | drawLine => exact ternaryCommand_gives each .drawLine fun _ _ _ => rfl
  | drawCircle => exact ternaryCommand_gives each .drawCircle fun _ _ _ => rfl
  | drawRectangle =>
      have next := nextArg_gives each .drawRectangle
      refine .bind (firstArg_gives each _) fun dx hx => .bind next fun dy hy => ?_
      refine .bind next fun d hd => .bind next fun w hw => .bind next fun t ht => ?_
      refine .skip (gives_pure ?_)
      simp [args, hx, hy, hd, hw, ht]
  | fill => exact .skip (.skip (gives_pure (by simp [args])))
  | filling => exact unaryCommand_gives each .filling fun _ => rfl
  | goTo =>
      refine .skip (.bind (P := fun _ => True) (fun _ _ _ _ => trivial) fun target _ => ?_)
      refine .skip (.skip (.bind each fun e he => .skip (gives_pure ?_)))
      simp [args, he]

/-- So are the expressions of every statement. -/
theorem parse_gives : Gives Kind.parse fun k => ∀ e ∈ k.args, P e := by
  have whole : Gives (Kind.expr <$> Expr.parse) fun k => ∀ e ∈ k.args, P e :=
    each.map fun e he => by simp [args, he]
  have assigned (x : String) : Gives (Kind.assign x <$> Expr.parse) fun k => ∀ e ∈ k.args, P e :=
    each.map fun e he => by simp [args, he]
  intro ls k rest h
  cases ls with
  | nil => exact whole h
  | cons l ls =>
      rw [Kind.parse] at h
      split at h
      · next c _ => exact afterCommand_gives each c h
      · next name _ =>
        unfold afterName at h
        split at h
        · cases h
          simp [args]
        · split at h
          · exact assigned name h
          · split at h
            · cases h
              simp [args]
            · exact whole h
          · exact whole h
      · exact whole h

end Stmt.Kind

/-- What is true of every expression that is read is true of the arguments of every statement. -/
theorem Stmt.parse_gives (loc : Location) : Gives (Stmt.parse loc) fun s => ∀ e ∈ s.args, P e :=
  .bind (Kind.parse_gives each) fun _ h => .skip (gives_pure h)

/-- A statement that is kept behind an error was read like any other. -/
theorem Line.parseRest_gives (line : Line) {bound : Nat} {ls : List Lexeme} :
    ∀ s ∈ (line.parseRest bound ls).stmts, ∀ e ∈ s.args, P e := by
  induction bound generalizing ls with
  | zero => cases ls <;> simp [Line.parseRest]
  | succ bound ih =>
      cases ls with
      | nil => simp [Line.parseRest]
      | cons l ls =>
          rw [Line.parseRest]
          split
          · next s _ h =>
            simp only [List.mem_singleton, forall_eq]
            exact Stmt.parse_gives each l.loc h
          · exact ih

/-- So are the expressions of every program. -/
theorem Program.parse_gives (eof : Lexeme) (ls : List Lexeme) :
    ∀ s ∈ (Program.parse eof ls).stmts, ∀ e ∈ s.args, P e := by
  simp only [Program.parse, List.flatMap_map, List.mem_flatMap]
  rintro s ⟨line, -, hs⟩
  exact line.parseRest_gives each s hs

end Arguments

/-! ### Everything that is read -/

namespace Expr

variable {e : Expr}

/-- An expression that is read from some text, be it alone, as an argument of a statement, or as an
argument of a statement of a program, whether or not there are errors before it. -/
inductive IsRead : Expr → Prop
  | alone {e : Expr} {ls rest : List Lexeme} (read : Expr.parse ls = .ok e rest) : IsRead e
  | inStmt {e : Expr} {loc : Location} {ls rest : List Lexeme} {s : Stmt}
      (read : Stmt.parse loc ls = .ok s rest) (arg : e ∈ s.args) : IsRead e
  | inProgram {e : Expr} {eof : Lexeme} {ls : List Lexeme} {s : Stmt}
      (stmt : s ∈ (Program.parse eof ls).stmts) (arg : e ∈ s.args) : IsRead e

/-- Everything that is read was within the budget. -/
theorem IsRead.charge_le (h : e.IsRead) : e.charge ≤ maxNesting := by
  have each : Gives Expr.parse fun e => e.charge ≤ maxNesting :=
    fun _ _ _ read => (parseWithin_sound read).charge_le
  cases h with
  | alone read => exact each read
  | inStmt read arg => exact Stmt.parse_gives each _ read e arg
  | inProgram stmt arg => exact Program.parse_gives each _ _ _ stmt e arg

/-- **The heights of parsed trees.** No tree that is read is higher than the sum over the budget. It
is not higher than the budget itself if it is balanced, or if it takes so little of the budget that
the sum over what it takes is still below. -/
theorem heights_of_parsed_trees (read : e.IsRead) :
    e.height ≤ 1 + (maxNesting - 1) * maxNesting / 2 ∧
      (e.Balanced ∨ e.charge ≤ 16 → e.height ≤ maxNesting) := by
  have charge_le := read.charge_le
  constructor
  · have most : maxHeight maxNesting = 1 + (maxNesting - 1) * maxNesting / 2 := maxHeight_succ 127
    rw [← most]
    exact height_le_maxHeight charge_le
  · rintro (balanced | small)
    · exact Nat.le_trans balanced.height_le_charge charge_le
    · have low : maxHeight 16 ≤ maxNesting := by decide
      exact Nat.le_trans (height_le_maxHeight small) low

/-- The lexemes of `1 - (1 - -1)`. -/
def nestedDifference : List Lexeme :=
  [⟨.int .one, "1", 0, 1, ⟨1, 1⟩⟩, ⟨.op .sub, "-", 2, 3, ⟨1, 3⟩⟩, ⟨.openParen, "(", 4, 5, ⟨1, 5⟩⟩,
    ⟨.int .one, "1", 5, 6, ⟨1, 6⟩⟩, ⟨.op .sub, "-", 7, 8, ⟨1, 8⟩⟩, ⟨.op .sub, "-", 9, 10, ⟨1, 10⟩⟩,
    ⟨.int .one, "1", 10, 11, ⟨1, 11⟩⟩, ⟨.closeParen, ")", 11, 12, ⟨1, 12⟩⟩]

/-- The tree of `nestedDifference`. -/
def nestedDifferenceTree : Expr :=
  .binary ⟨1, 1⟩ .sub (.lit ⟨1, 1⟩ (.int .one)) (.group ⟨1, 5⟩
    (.binary ⟨1, 6⟩ .sub (.lit ⟨1, 6⟩ (.int .one))
      (.unary ⟨1, 10⟩ .neg (.lit ⟨1, 11⟩ (.int .one)))))

/-- A tree that has its brackets on the right is balanced. -/
theorem nestedDifference_height :
    Expr.parse nestedDifference = .ok nestedDifferenceTree [] ∧ nestedDifferenceTree.Balanced ∧
      nestedDifferenceTree.height ≤ maxNesting := by
  have read : Expr.parse nestedDifference = .ok nestedDifferenceTree [] := rfl
  have balanced : nestedDifferenceTree.Balanced := by
    simp [nestedDifferenceTree, Balanced, preorder, LeansRight, charge, folds]
  exact ⟨read, balanced, (heights_of_parsed_trees (.alone read)).2 (.inl balanced)⟩

/-- The lexemes of a one in `maxNesting - 1` pairs of parentheses, and of another one added to
it. -/
def nestedSum : List Lexeme :=
  (List.range 127).map (fun i => ⟨.openParen, "(", i, i + 1, ⟨1, i + 1⟩⟩) ++
    [⟨.int .one, "1", 127, 128, ⟨1, 128⟩⟩] ++
    (List.range 127).map (fun i => ⟨.closeParen, ")", i + 128, i + 129, ⟨1, i + 129⟩⟩) ++
    [⟨.op .add, "+", 256, 257, ⟨1, 257⟩⟩, ⟨.int .one, "1", 258, 259, ⟨1, 259⟩⟩]

/-- The tree of `nestedSum`. -/
def nestedSumTree : Expr :=
  .binary ⟨1, 1⟩ .add
    ((List.range 127).foldr (fun i e => .group ⟨1, i + 1⟩ e) (.lit ⟨1, 128⟩ (.int .one)))
    (.lit ⟨1, 259⟩ (.int .one))

/-- The first operand of this sum uses up the budget, and the operator lifts it beyond. -/
theorem nestedSum_exceeds_maxNesting :
    Expr.parse nestedSum = .ok nestedSumTree [] ∧ maxNesting < nestedSumTree.height := by
  have read : Expr.parse nestedSum = .ok nestedSumTree [] := by
    set_option maxRecDepth 4000 in rfl
  exact ⟨read, by decide +kernel⟩

/-- **The sum over the budget is reached.** Some text is read as a tree that high. -/
theorem exists_isRead_height_eq :
    ∃ e : Expr, e.IsRead ∧ e.height = 1 + (maxNesting - 1) * maxNesting / 2 := by
  have readable : (tower 127).Readable := ⟨tower_layered 127, charge_tower_le 127⟩
  obtain ⟨ls, spelled⟩ := (tower 127).exists_spelled
  obtain ⟨e, same, h⟩ := readable.parse spelled ends_nil
  refine ⟨e, .alone h, ?_⟩
  rw [← height_unplaced, same, height_unplaced, height_tower]
  exact maxHeight_succ 127

end Expr

end PenScript
