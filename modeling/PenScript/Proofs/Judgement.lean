import Mathlib.Data.List.Basic
import Mathlib.Data.List.Forall2
import PenScript.Proofs.Accepted

/-!
# What the checker decides

The checker goes on behind an error. It collects errors from everywhere in a program, and so that
one mistake is reported once, an expression in error often has no type and silences what stands
around it; but not always, and a variable may have no type for the rest of the program. Here it is
said without errors which programs are accepted. Types of expressions are derived by rules,
statements are gone through with a table of the types of earlier assignments, and a program is well
formed if it starts with its only `Spawn`, declares its labels once and all of those it jumps to,
and if every statement is sound. The checker reports nothing if and only if the program is well
formed: silence never loses the last error, and nothing is reported of a well-formed program.

## Main definitions

* `Expr.HasType` — the rules of types;
* `Expr.inferStatic` — inference where a variable may be of a type without values;
* `Stmt.Kind.Sound`, `Stmt.AllSound` — the rules of statements, one by one and in order;
* `Program.WellFormed` — the programs that are accepted.

## Main results

* `Expr.infer_eq_iff`: inference without errors is derivation;
* `Expr.inferStatic_eq`: no expression has the type without values;
* `Stmt.check_eq_nil_iff`: a statement without errors is sound;
* `Program.error_of_untyped`: an expression without a type is one behind an error;
* `Program.checker_decides`: the checker accepts the programs that are well formed.
-/

namespace PenScript

/-! ### Rules of types -/

/-- The types of the variables that were assigned so far. -/
abbrev Context := Table Ty

/-- The types of operands that an operator applies to, and the type of its result. Integers are
added and multiplied; anything can be joined to a text, on either side; a text is repeated, with the
number on either side of it; operands of one type can be equal or differ; and all other operators
apply to integers. -/
inductive BinaryOp.Gives : BinaryOp → Ty → Ty → Ty → Prop
  | sum : Gives .add .intOrBool .intOrBool .intOrBool
  | joinRight (t : Ty) : Gives .add .str t .str
  | joinLeft (t : Ty) : Gives .add t .str .str
  | product : Gives .mul .intOrBool .intOrBool .intOrBool
  | repeatLeft : Gives .mul .str .intOrBool .str
  | repeatRight : Gives .mul .intOrBool .str .str
  | equal (t : Ty) : Gives .eq t t .intOrBool
  | differ (t : Ty) : Gives .ne t t .intOrBool
  | integers {op : BinaryOp} : op ∉ [.add, .mul, .eq, .ne] →
      Gives op .intOrBool .intOrBool .intOrBool

/-- The expression has a type: the rules. A variable has the type of the last assignment to it. A
call of a built-in function has as many arguments as there are parameters, of their types. An
operator stands between operands of types that it applies to. -/
inductive Expr.HasType (Γ : Context) : Expr → Ty → Prop
  | int (l : Location) (n : Integer) : HasType Γ (.lit l (.int n)) .intOrBool
  | bool (l : Location) (b : Bool) : HasType Γ (.lit l (.bool b)) .intOrBool
  | str (l : Location) (s : String) : HasType Γ (.lit l (.str s)) .str
  | var {l : Location} {x : String} {t : Ty} : Γ.get? x = some t → HasType Γ (.var l x) t
  | call {l : Location} {f : String} {q : Query} {args : List Expr} :
      Query.ofName? f = some q → List.Forall₂ (HasType Γ) args q.params →
      HasType Γ (.call l f args) .intOrBool
  | group {l : Location} {e : Expr} {t : Ty} : HasType Γ e t → HasType Γ (.group l e) t
  | unary {l : Location} {op : UnaryOp} {e : Expr} :
      HasType Γ e .intOrBool → HasType Γ (.unary l op e) .intOrBool
  | binary {l : Location} {op : BinaryOp} {a b : Expr} {ta tb t : Ty} :
      HasType Γ a ta → HasType Γ b tb → op.Gives ta tb t → HasType Γ (.binary l op a b) t

/-! ### Inference without errors is derivation -/

/-- An operator on operands of known types gives the type of its rule and no error, or there is no
rule. -/
theorem BinaryOp.infer_eq_iff {op : BinaryOp} {loc lhsLoc rhsLoc : Location} {a b t : Ty} :
    op.infer loc lhsLoc rhsLoc (some a) (some b) = (some t, []) ↔ op.Gives a b t := by
  constructor
  · intro typed
    cases op with
    | add =>
        cases a with
        | str =>
            cases b <;> cases typed <;> exact .joinRight _
        | intOrBool =>
            cases b with
            | str =>
                cases typed
                exact .joinLeft _
            | intOrBool =>
                cases typed
                exact .sum
    | mul =>
        cases a with
        | str =>
            cases b with
            | str => cases typed
            | intOrBool =>
                cases typed
                exact .repeatLeft
        | intOrBool =>
            cases b with
            | str =>
                cases typed
                exact .repeatRight
            | intOrBool =>
                cases typed
                exact .product
    | eq =>
        cases a <;> cases b <;> cases typed
        · exact .equal _
        · exact .equal _
    | ne =>
        cases a <;> cases b <;> cases typed
        · exact .differ _
        · exact .differ _
    | _ =>
        obtain ⟨rfl, rfl, rfl⟩ := Expr.operands_of_integers (by decide) typed
        exact .integers (by decide)
  · intro rule
    cases rule with
    | sum | product | repeatLeft | repeatRight => rfl
    | joinRight => cases b <;> rfl
    | joinLeft | equal | differ => cases a <;> rfl
    | integers other =>
        cases op with
        | add | mul | eq | ne => exact absurd other (by decide)
        | _ => rfl

/-- The table of the checker has the types of the context, and all of them are known. -/
def Types.Shows (types : Types) (Γ : Context) : Prop :=
  ∀ x, types.get? x = (Γ.get? x).map some

namespace Types

variable {types : Types} {Γ : Context}

/-- At first no variable has a type. -/
theorem shows_empty : Types.Shows .empty .empty := fun _ => rfl

/-- Types that are those of a context are known. -/
theorem Shows.known (shows : types.Shows Γ) : types.Known := by
  intro x unknown
  rw [shows x] at unknown
  obtain ⟨t, -, none⟩ := Option.map_eq_some_iff.1 unknown
  cases none

/-- A variable gets the same type on both sides. -/
theorem Shows.insert (shows : types.Shows Γ) (x : String) (t : Ty) :
    Types.Shows (types.insert x (some t)) (Γ.insert x t) := by
  intro y
  rw [Table.get?_insert, Table.get?_insert]
  split
  · rfl
  · exact shows y

end Types

/-- Arguments that have the types of the parameters raise no error. -/
theorem Query.argErrors_eq_nil {q : Query} {params : List Ty} {args : List (Location × Option Ty)}
    (typed : args.map Prod.snd = params.map some) (i : Nat) : q.argErrors i params args = [] := by
  induction params generalizing args i with
  | nil => rfl
  | cons t params ih =>
      obtain ⟨⟨loc, found⟩, args, rfl, same, rest⟩ := List.map_eq_cons_iff.1 typed
      obtain rfl : found = some t := same
      rw [argErrors, ih rest, expectType_some_eq_nil.2 rfl, List.append_nil]

namespace Expr

variable {types : Types} {Γ : Context}

/-- Arguments have the types of parameters one by one. -/
theorem forall₂_iff_map {args : List Expr} {params : List Ty}
    (each : ∀ a ∈ args, ∀ t, a.infer types = (some t, []) ↔ a.HasType Γ t) :
    args.map (fun e => e.infer types) = params.map (fun t => (some t, [])) ↔
      List.Forall₂ (HasType Γ) args params := by
  induction args generalizing params with
  | nil =>
      rw [List.map_nil, List.forall₂_nil_left_iff, eq_comm, List.map_eq_nil_iff]
  | cons a args ih =>
      cases params with
      | nil => simp
      | cons t params =>
          obtain ⟨here, later⟩ := List.forall_mem_cons.1 each
          rw [List.map_cons, List.map_cons, List.cons.injEq, List.forall₂_cons, here t, ih later]

/-- A call has a type and no error if its arguments have the types of the parameters. -/
theorem infer_call_of_typed {l : Location} {f : String} {q : Query} {args : List Expr}
    (found : Query.ofName? f = some q)
    (typed : args.map (fun e => e.infer types) = q.params.map fun t => (some t, [])) :
    (call l f args).infer types = (some .intOrBool, []) := by
  have clean : (inferAll types args).2 = [] := by
    rw [inferAll_snd, List.flatMap_eq_nil_iff]
    intro a member
    have inferred : a.infer types ∈ q.params.map fun t => (some t, []) :=
      typed ▸ List.mem_map_of_mem member
    obtain ⟨t, -, same⟩ := List.mem_map.1 inferred
    rw [← same]
  have given : (inferAll types args).1.map Prod.snd = q.params.map some := by
    rw [inferAll_fst, List.map_map]
    calc args.map (Prod.snd ∘ fun e => (e.loc, (e.infer types).1))
        = (args.map fun e => e.infer types).map Prod.fst := by rw [List.map_map]; rfl
      _ = q.params.map some := by rw [typed, List.map_map]; rfl
  have length : (inferAll types args).1.length = q.arity := by
    simpa [Query.arity] using congrArg List.length given
  rw [infer_call, clean, inferCall, found]
  simp only [if_pos length, Query.argErrors_eq_nil given, List.append_nil]
  rfl

/-- **Inference without errors is derivation.** -/
theorem infer_eq_iff (shows : types.Shows Γ) {e : Expr} {t : Ty} :
    e.infer types = (some t, []) ↔ e.HasType Γ t := by
  have known := shows.known
  induction e using inductionOn generalizing t with
  | lit l v =>
      rw [infer]
      constructor
      · intro typed
        cases v <;> cases typed
        · exact .int _ _
        · exact .bool _ _
        · exact .str _ _
      · intro rule
        cases rule <;> rfl
  | var l x =>
      rw [infer, shows x]
      cases found : Γ.get? x with
      | none =>
          constructor
          · intro typed
            cases typed
          · intro rule
            cases rule with
            | var given => cases found.symm.trans given
      | some t' =>
          constructor
          · intro typed
            cases typed
            exact .var found
          · intro rule
            cases rule with
            | var given =>
                cases found.symm.trans given
                rfl
  | call l f args ih =>
      constructor
      · intro typed
        rw [infer_call, Prod.mk.injEq, List.append_eq_nil_iff] at typed
        obtain ⟨ht, clean, call⟩ := typed
        obtain ⟨q, hq, type, found⟩ :=
          inferCall_of_clean (args_known (fun a _ => infer_of_clean known) clean) call
        rw [type] at ht
        cases ht
        exact .call hq ((forall₂_iff_map fun a member t => ih a member).1 (args_typed clean found))
      · intro rule
        cases rule with
        | call hq typed =>
            exact infer_call_of_typed hq ((forall₂_iff_map fun a member t => ih a member).2 typed)
  | group l e ih =>
      rw [infer]
      constructor
      · exact fun typed => .group (ih.1 typed)
      · intro rule
        cases rule with
        | group typed => exact ih.2 typed
  | unary l op e ih =>
      rw [infer_unary]
      constructor
      · intro typed
        rw [Prod.mk.injEq, List.append_eq_nil_iff] at typed
        obtain ⟨ht, clean, operand⟩ := typed
        cases ht
        obtain ⟨te, he⟩ := infer_of_clean known clean
        rw [he] at operand
        obtain rfl := expectType_some_eq_nil.1 operand
        exact .unary (ih.1 he)
      · intro rule
        cases rule with
        | unary typed =>
            rw [ih.2 typed, expectType_some_eq_nil.2 rfl]
            rfl
  | binary l op a b iha ihb =>
      rw [infer_binary]
      constructor
      · intro typed
        rw [Prod.mk.injEq, List.append_eq_nil_iff, List.append_eq_nil_iff] at typed
        obtain ⟨ht, ⟨cleanA, cleanB⟩, clean⟩ := typed
        obtain ⟨ta, ha⟩ := infer_of_clean known cleanA
        obtain ⟨tb, hb⟩ := infer_of_clean known cleanB
        rw [ha, hb] at ht clean
        exact .binary (iha.1 ha) (ihb.1 hb) (BinaryOp.infer_eq_iff.1 (Prod.ext ht clean))
      · intro rule
        cases rule with
        | binary ha hb gives =>
            rw [iha.2 ha, ihb.2 hb, BinaryOp.infer_eq_iff.2 gives]
            rfl

/-- An expression is free of errors if it has a type. -/
theorem clean_iff (shows : types.Shows Γ) {e : Expr} :
    (e.infer types).2 = [] ↔ ∃ t, e.HasType Γ t := by
  constructor
  · intro clean
    obtain ⟨t, typed⟩ := infer_of_clean shows.known clean
    exact ⟨t, (infer_eq_iff shows).1 typed⟩
  · rintro ⟨t, typed⟩
    rw [(infer_eq_iff shows).2 typed]

/-- An expression is free of errors in a role that asks for a type if it has that type. -/
theorem expect_iff (shows : types.Shows Γ) {e : Expr} {role : Role} {expected : Ty} :
    ((e.infer types).2 = [] ∧ expectType e.loc role expected (e.infer types).1 = []) ↔
      e.HasType Γ expected := by
  rw [← infer_eq_iff shows]
  constructor
  · rintro ⟨clean, expects⟩
    obtain ⟨t, typed⟩ := infer_of_clean shows.known clean
    rw [typed] at expects
    obtain rfl := expectType_some_eq_nil.1 expects
    exact typed
  · intro typed
    rw [typed]
    exact ⟨rfl, expectType_some_eq_nil.2 rfl⟩

end Expr

/-! ### A type without values -/

/-- The types that the checker is written for: those of values, and one for what has no value. -/
inductive StaticTy where
  | value (t : Ty)
  | void
deriving DecidableEq

/-- The type of the last assignment to every variable, where it may have no value. -/
abbrev StaticTypes := Table (Option StaticTy)

/-- The type of an operator's result on operands that may have no value. Only a sum with a text
accepts them, and they are never equal. -/
def BinaryOp.inferStatic (op : BinaryOp) (lhs rhs : Option StaticTy) : Option StaticTy :=
  match op with
  | .add =>
    match lhs, rhs with
    | some (.value .intOrBool), some (.value .intOrBool) => some (.value .intOrBool)
    | some (.value .str), some _ => some (.value .str)
    | some _, some (.value .str) => some (.value .str)
    | _, _ => none
  | .mul =>
    match lhs, rhs with
    | some (.value .intOrBool), some (.value .intOrBool) => some (.value .intOrBool)
    | some (.value .str), some (.value .intOrBool) => some (.value .str)
    | some (.value .intOrBool), some (.value .str) => some (.value .str)
    | _, _ => none
  | .eq | .ne =>
    match lhs, rhs with
    | some a, some b => if a ≠ b ∨ a = .void then none else some (.value .intOrBool)
    | _, _ => none
  | _ =>
    if lhs = some (.value .intOrBool) ∧ rhs = some (.value .intOrBool) then
      some (.value .intOrBool)
    else none

/-- The type of an expression over variables that may have no value. -/
def Expr.inferStatic (types : StaticTypes) : Expr → Option StaticTy
  | lit _ v => some (.value v.type)
  | var _ x => (types.get? x).join
  | call _ f _ => (Query.ofName? f).map fun q => .value q.answer
  | group _ e => e.inferStatic types
  | unary .. => some (.value .intOrBool)
  | binary _ op a b => op.inferStatic (a.inferStatic types) (b.inferStatic types)

/-- The table has the types of the checker, and no type without values. -/
def StaticTypes.Mirrors (static : StaticTypes) (types : Types) : Prop :=
  ∀ x, static.get? x = (types.get? x).map (Option.map .value)

/-- An operator gives the static type of what the checker infers. -/
theorem BinaryOp.inferStatic_eq (op : BinaryOp) {loc lhsLoc rhsLoc : Location}
    (lhs rhs : Option Ty) :
    op.inferStatic (lhs.map .value) (rhs.map .value) =
      (op.infer loc lhsLoc rhsLoc lhs rhs).1.map .value := by
  rcases lhs with _ | (_ | _) <;> rcases rhs with _ | (_ | _) <;> cases op <;> rfl

namespace Expr

variable {static : StaticTypes} {types : Types}

/-- **No expression has the type without values**, as long as no variable has it: inference is the
one that does not know this type. -/
theorem inferStatic_eq (mirrors : static.Mirrors types) (e : Expr) :
    e.inferStatic static = (e.infer types).1.map .value := by
  induction e using inductionOn with
  | lit l v => rw [inferStatic, infer, Option.map_some]
  | var l x =>
      rw [inferStatic, infer, mirrors x]
      cases types.get? x <;> rfl
  | call l f args =>
      rw [inferStatic, infer_call, inferCall]
      cases Query.ofName? f <;> rfl
  | group l e ih => rw [inferStatic, infer, ih]
  | unary l op e => rw [inferStatic, infer_unary, Option.map_some]
  | binary l op a b iha ihb =>
      rw [inferStatic, infer_binary, iha, ihb]
      exact op.inferStatic_eq _ _

/-- No expression is without a value. -/
theorem inferStatic_ne_void (mirrors : static.Mirrors types) (e : Expr) :
    e.inferStatic static ≠ some .void := by
  rw [inferStatic_eq mirrors]
  cases (e.infer types).1 <;> simp

end Expr

/-! ### Rules of statements -/

namespace Stmt

namespace Kind

/-- The type that a statement requires of its arguments; an assignment and an expression that stands
alone require none. -/
def required? : Kind → Option Ty
  | color _ => some .str
  | assign .. | expr _ => none
  | _ => some .intOrBool

/-- The arguments that say in which direction a shape is drawn. -/
def directions : Kind → List Expr
  | drawLine dx dy _ | drawCircle dx dy _ | drawRectangle dx dy _ _ _ => [dx, dy]
  | _ => []

/-- The statement is sound where the variables have the types of a context: every argument has a
type, and the required one if one is required; a constant direction is one of the three; and a color
literal names a color. -/
structure Sound (Γ : Context) (k : Kind) : Prop where
  args : ∀ e ∈ k.args, ∃ t, e.HasType Γ t ∧ ∀ required ∈ k.required?, t = required
  directions : ∀ e ∈ k.directions, ∀ v : Integer, e.constantInt? = some v →
    v.val = -1 ∨ v.val = 0 ∨ v.val = 1
  color : ∀ l s, k = .color (.lit l (.str s)) → (Color.parse? s).isSome

end Kind

/-- The statements are sound one after the other, each one with the types of the assignments before
it: an assignment gives its variable the type of what is assigned, and all other statements leave
the types as they are. -/
inductive AllSound : Context → List Stmt → Prop
  | nil (Γ : Context) : AllSound Γ []
  | assign {Γ : Context} {loc : Location} {x : String} {e : Expr} {t : Ty} {rest : List Stmt} :
      e.HasType Γ t → AllSound (Γ.insert x t) rest → AllSound Γ (⟨loc, .assign x e⟩ :: rest)
  | other {Γ : Context} {s : Stmt} {rest : List Stmt} : (∀ x e, s.kind ≠ .assign x e) →
      s.kind.Sound Γ → AllSound Γ rest → AllSound Γ (s :: rest)

variable {types : Types} {Γ : Context}

/-- Arguments are not reported exactly if they have the expected type. -/
theorem argErrors_eq_nil_iff (shows : types.Shows Γ) {c : Command} {expected : Ty} {i : Nat}
    {es : List Expr} :
    argErrors types c expected i es = [] ↔ ∀ e ∈ es, e.HasType Γ expected := by
  induction es generalizing i with
  | nil => simp [argErrors]
  | cons e es ih =>
      rw [argErrors, List.append_eq_nil_iff, List.append_eq_nil_iff, Expr.expect_iff shows, ih,
        List.forall_mem_cons]

/-- A direction is not reported exactly if it is one of the three or not constant. -/
theorem directionErrors_eq_nil_iff {e : Expr} :
    directionErrors e = [] ↔ ∀ v : Integer, e.constantInt? = some v →
      v.val = -1 ∨ v.val = 0 ∨ v.val = 1 := by
  rw [directionErrors]
  cases e.constantInt? with
  | none => simp
  | some v =>
      simp only [Option.some.injEq, forall_eq']
      split
      · simp only [true_iff]
        omega
      · simp only [List.cons_ne_nil, false_iff]
        omega

/-- A color is not reported exactly if it names a color or is no literal. -/
theorem colorErrors_eq_nil_iff {e : Expr} :
    colorErrors e = [] ↔ ∀ l s, e = .lit l (.str s) → (Color.parse? s).isSome := by
  rw [colorErrors.eq_def]
  split
  · next loc s =>
    simp only [Expr.lit.injEq, Value.str.injEq, and_imp]
    split
    · next valid => simpa using valid
    · next invalid => simpa using invalid
  · next other =>
    simp only [true_iff]
    exact fun l s same => absurd same (other l s)

/-- A figure is not reported exactly if its arguments are integers and its direction is none that is
refused. -/
theorem drawErrors_eq_nil_iff (shows : types.Shows Γ) {c : Command} {dx dy : Expr}
    {others : List Expr} :
    drawErrors types c dx dy others = [] ↔ (∀ e ∈ dx :: dy :: others, e.HasType Γ .intOrBool) ∧
      ∀ e ∈ [dx, dy], ∀ v : Integer, e.constantInt? = some v →
        v.val = -1 ∨ v.val = 0 ∨ v.val = 1 := by
  rw [drawErrors, List.append_eq_nil_iff, List.append_eq_nil_iff, argErrors_eq_nil_iff shows,
    directionErrors_eq_nil_iff, directionErrors_eq_nil_iff, and_comm]
  simp

/-- Soundness of a statement that requires a type of all its arguments. -/
theorem Kind.sound_iff {k : Kind} {expected : Ty} (requires : k.required? = some expected) :
    k.Sound Γ ↔ (∀ e ∈ k.args, e.HasType Γ expected) ∧
      (∀ e ∈ k.directions, ∀ v : Integer, e.constantInt? = some v →
        v.val = -1 ∨ v.val = 0 ∨ v.val = 1) ∧
      ∀ l s, k = .color (.lit l (.str s)) → (Color.parse? s).isSome := by
  constructor
  · rintro ⟨args, directions, color⟩
    refine ⟨fun e member => ?_, directions, color⟩
    obtain ⟨t, typed, same⟩ := args e member
    rwa [← same expected requires]
  · rintro ⟨args, directions, color⟩
    refine ⟨fun e member => ⟨expected, args e member, fun required given => ?_⟩, directions, color⟩
    exact Option.some.inj (requires.symm.trans given)

/-- Soundness of a statement that requires nothing of its one argument. -/
theorem Kind.sound_iff_of_free {k : Kind} {e : Expr} (requires : k.required? = none)
    (args : k.args = [e]) (straight : k.directions = []) :
    k.Sound Γ ↔ ∃ t, e.HasType Γ t := by
  constructor
  · rintro ⟨typed, -, -⟩
    obtain ⟨t, here, -⟩ := typed e (args ▸ List.mem_singleton_self e)
    exact ⟨t, here⟩
  · rintro ⟨t, here⟩
    refine ⟨fun e' member => ⟨t, ?_, ?_⟩, ?_, ?_⟩
    · rw [args, List.mem_singleton] at member
      exact member ▸ here
    · simp [requires]
    · simp [straight]
    · rintro l s rfl
      cases requires

/-- **A statement without errors is sound.** -/
theorem check_eq_nil_iff (shows : types.Shows Γ) (s : Stmt) :
    (s.check types).2 = [] ↔ s.kind.Sound Γ := by
  obtain ⟨loc, kind⟩ := s
  cases kind with
  | assign x e =>
      exact (Expr.clean_iff shows).trans (Kind.sound_iff_of_free rfl rfl rfl).symm
  | expr e =>
      exact (Expr.clean_iff shows).trans (Kind.sound_iff_of_free rfl rfl rfl).symm
  | fill | label name =>
      rw [Kind.sound_iff rfl]
      simp [check, Kind.args, Kind.directions]
  | spawn x y | respawn x y | size e | filling e =>
      rw [Kind.sound_iff rfl, check, argErrors_eq_nil_iff shows]
      simp [Kind.args, Kind.directions]
  | color e =>
      rw [Kind.sound_iff rfl, check, List.append_eq_nil_iff, argErrors_eq_nil_iff shows,
        colorErrors_eq_nil_iff]
      simp [Kind.args, Kind.directions]
  | drawLine dx dy d | drawCircle dx dy d | drawRectangle dx dy d w h =>
      rw [Kind.sound_iff rfl]
      exact (drawErrors_eq_nil_iff shows).trans (by simp [Kind.args, Kind.directions])
  | goTo name e =>
      rw [Kind.sound_iff rfl, check, List.append_eq_nil_iff, Expr.expect_iff shows]
      simp [Kind.args, Kind.directions]

/-- The first of sound statements is sound. -/
theorem AllSound.head {s : Stmt} {rest : List Stmt} (all : AllSound Γ (s :: rest)) :
    s.kind.Sound Γ := by
  cases all with
  | assign typed later => exact (Kind.sound_iff_of_free rfl rfl rfl).2 ⟨_, typed⟩
  | other still sound later => exact sound

/-- Behind a sound statement the table of the checker has the types of the context behind it, and
the other statements have to be sound there. -/
theorem Kind.Sound.behind (shows : types.Shows Γ) {s : Stmt} (sound : s.kind.Sound Γ) :
    ∃ Γ', Types.Shows (s.check types).1 Γ' ∧
      ∀ rest, AllSound Γ (s :: rest) ↔ AllSound Γ' rest := by
  obtain ⟨loc, x, e, rfl⟩ | still := s.assign_or_not
  · obtain ⟨t, typed⟩ := (Kind.sound_iff_of_free rfl rfl rfl).1 sound
    have inferred := (Expr.infer_eq_iff shows).2 typed
    refine ⟨Γ.insert x t, ?_, fun rest => ⟨fun all => ?_, AllSound.assign typed⟩⟩
    · rw [check_assign, inferred]
      exact shows.insert x t
    · cases all with
      | assign typed' later =>
          -- an expression has one type
          cases inferred.symm.trans ((Expr.infer_eq_iff shows).2 typed')
          exact later
      | other still => exact absurd rfl (still x e)
  · refine ⟨Γ, ?_, fun rest => ⟨fun all => ?_, AllSound.other still sound⟩⟩
    · rw [check_fst_of_not_assign still]
      exact shows
    · cases all with
      | assign => exact absurd rfl (still _ _)
      | other _ _ later => exact later

/-- **Statements behind the first one** have no errors if they are sound in their order and none of
them places the pen again. -/
theorem checkBehindSpawn_eq_nil_iff (shows : types.Shows Γ) {ss : List Stmt} :
    checkBehindSpawn types ss = [] ↔ (∀ s ∈ ss, ¬s.kind.isSpawn) ∧ AllSound Γ ss := by
  induction ss generalizing types Γ with
  | nil => simp [checkBehindSpawn, AllSound.nil]
  | cons s rest ih =>
      have once : (if s.kind.isSpawn then [(⟨s.loc, .spawnAgain⟩ : Located SemanticError)] else [])
          = [] ↔ ¬s.kind.isSpawn := by
        split <;> simp_all
      rw [checkBehindSpawn, List.append_eq_nil_iff, List.append_eq_nil_iff, once,
        check_eq_nil_iff shows, List.forall_mem_cons]
      constructor
      · rintro ⟨⟨here, sound⟩, clean⟩
        obtain ⟨Γ', shows', behind⟩ := sound.behind shows
        obtain ⟨later, all⟩ := (ih shows').1 clean
        exact ⟨⟨here, later⟩, (behind rest).2 all⟩
      · rintro ⟨⟨here, later⟩, all⟩
        obtain ⟨Γ', shows', behind⟩ := all.head.behind shows
        exact ⟨⟨here, all.head⟩, (ih shows').2 ⟨later, (behind rest).1 all⟩⟩

/-- What is found in a statement is reported, whether the program starts well or not. -/
theorem mem_checkBehindSpawn {ss : List Stmt} {i : Nat} {s : Stmt} {f : Located SemanticError}
    (at_i : ss[i]? = some s) (fault : f ∈ (s.check (typesBehind types (ss.take i))).2) :
    f ∈ checkBehindSpawn types ss := by
  induction ss generalizing types i with
  | nil => simp at at_i
  | cons first rest ih =>
      rw [checkBehindSpawn, List.mem_append, List.mem_append]
      cases i with
      | zero =>
          cases at_i
          exact Or.inl (Or.inr fault)
      | succ i => exact Or.inr (ih at_i fault)

/-- What is reported for a statement is reported. -/
theorem mem_checkAll {ss : List Stmt} {i : Nat} {s : Stmt} {f : Located SemanticError}
    (at_i : ss[i]? = some s) (fault : f ∈ (s.check (typesBehind types (ss.take i))).2) :
    f ∈ checkAll types ss := by
  induction ss generalizing types i with
  | nil => simp at at_i
  | cons first rest ih =>
      rw [checkAll, List.mem_append]
      cases i with
      | zero =>
          cases at_i
          exact Or.inl fault
      | succ i => exact Or.inr (ih at_i fault)

/-- The types of the variables behind a statement, where they may have no value. -/
def assignStatic (static : StaticTypes) (s : Stmt) : StaticTypes :=
  match s.kind with
  | .assign x e => static.insert x (e.inferStatic static)
  | _ => static

/-- A statement leaves the same types on both sides. -/
theorem mirrors_check {static : StaticTypes} (mirrors : static.Mirrors types) (s : Stmt) :
    StaticTypes.Mirrors (s.assignStatic static) (s.check types).1 := by
  obtain ⟨loc, kind⟩ := s
  cases kind with
  | assign x e =>
      intro y
      rw [assignStatic, check_assign, Table.get?_insert, Table.get?_insert,
        Expr.inferStatic_eq mirrors]
      split
      · rfl
      · exact mirrors y
  | _ => exact mirrors

/-- So do statements one after the other. -/
theorem mirrors_typesBehind {static : StaticTypes} (mirrors : static.Mirrors types)
    (ss : List Stmt) :
    StaticTypes.Mirrors (ss.foldl assignStatic static) (typesBehind types ss) := by
  induction ss generalizing static types with
  | nil => exact mirrors
  | cons s ss ih => exact ih (mirrors_check mirrors s)

/-- The label that a statement declares. -/
def label? (s : Stmt) : Option String :=
  match s.kind with
  | .label name => some name
  | _ => none

end Stmt

/-! ### Labels -/

namespace Label

/-- Collecting labels reports nothing if they are declared once and were not declared before. -/
theorem collectFrom_snd_eq_nil_iff {i : Nat} {table : Table Decl} {ss : List Stmt} :
    (collectFrom i table ss).2 = [] ↔
      (ss.filterMap Stmt.label?).Nodup ∧
        ∀ name ∈ ss.filterMap Stmt.label?, table.get? name = none := by
  induction ss generalizing i table with
  | nil => simp [collectFrom]
  | cons s ss ih =>
      obtain ⟨loc, kind⟩ := s
      cases kind with
      | label name =>
          simp only [collectFrom, List.filterMap_cons, Stmt.label?, List.nodup_cons,
            List.forall_mem_cons]
          cases declared : table.get? name with
          | some first => simp
          | none =>
              simp only [ih, Table.get?_insert]
              constructor
              · rintro ⟨nodup, fresh⟩
                have new : name ∉ ss.filterMap Stmt.label? := fun again => by
                  simpa using fresh name again
                refine ⟨⟨new, nodup⟩, trivial, fun other later => ?_⟩
                have apart : other ≠ name := fun same => new (same ▸ later)
                simpa [apart] using fresh other later
              · rintro ⟨⟨new, nodup⟩, -, fresh⟩
                refine ⟨nodup, fun other later => ?_⟩
                have apart : other ≠ name := fun same => new (same ▸ later)
                simpa [apart] using fresh other later
      | _ => exact ih

/-- The collected labels are those of the table and those that are declared. -/
theorem isSome_collectFrom_fst {i : Nat} {table : Table Decl} {ss : List Stmt} {name : String} :
    ((collectFrom i table ss).1.get? name).isSome ↔
      (table.get? name).isSome ∨ name ∈ ss.filterMap Stmt.label? := by
  induction ss generalizing i table with
  | nil => simp [collectFrom]
  | cons s ss ih =>
      obtain ⟨loc, kind⟩ := s
      cases kind with
      | label other =>
          simp only [collectFrom, List.filterMap_cons, Stmt.label?, List.mem_cons]
          cases declared : table.get? other with
          | some first =>
              simp only [ih]
              constructor
              · exact Or.imp_right Or.inr
              · rintro (known | rfl | later)
                · exact Or.inl known
                · exact Or.inl (by rw [declared]; rfl)
                · exact Or.inr later
          | none =>
              simp only [ih, Table.get?_insert]
              by_cases same : name = other
              · simp [same]
              · simp [same]
      | _ => exact ih

end Label

/-! ### Programs -/

namespace Program

/-- The labels that a program declares, in order. -/
def labels (p : Program) : List String :=
  p.stmts.filterMap Stmt.label?

/-- The programs that the checker accepts: the first statement places the pen and no other one does,
no label is declared twice, every jump leads to a label that is declared, and the statements are
sound in their order. -/
structure WellFormed (p : Program) : Prop where
  starts : ∃ first rest, p.stmts = first :: rest ∧ first.kind.isSpawn ∧
    ∀ s ∈ rest, ¬s.kind.isSpawn
  nodup : p.labels.Nodup
  declared : ∀ s ∈ p.stmts, ∀ name e, s.kind = .goTo name e → name ∈ p.labels
  sound : Stmt.AllSound .empty p.stmts

variable {p : Program}

/-- Labels are not reported exactly if none is declared twice. -/
theorem collect_eq_nil_iff : (Label.collect p).2 = [] ↔ p.labels.Nodup := by
  rw [Label.collect, Label.collectFrom_snd_eq_nil_iff]
  simp [labels]

/-- Jumps are not reported exactly if all of their labels are declared. -/
theorem unresolved_eq_nil_iff : Label.unresolved (Label.collect p).1 p = [] ↔
    ∀ s ∈ p.stmts, ∀ name e, s.kind = .goTo name e → name ∈ p.labels := by
  have found {name : String} : ((Label.collect p).1.get? name).isSome ↔ name ∈ p.labels := by
    rw [Label.collect, Label.isSome_collectFrom_fst]
    simp [labels]
  rw [Label.unresolved, List.filterMap_eq_nil_iff]
  refine forall₂_congr fun s _ => ?_
  obtain ⟨loc, kind⟩ := s
  cases kind with
  | goTo name e => simp [Label.unresolved?, found]
  | _ => simp [Label.unresolved?]

/-- Statements are not reported exactly if the first one places the pen, no other one does, and they
are sound in their order. -/
theorem checkStmts_eq_nil_iff : p.checkStmts = [] ↔
    (∃ first rest, p.stmts = first :: rest ∧ first.kind.isSpawn ∧ ∀ s ∈ rest, ¬s.kind.isSpawn) ∧
      Stmt.AllSound .empty p.stmts := by
  rw [checkStmts]
  cases stmts : p.stmts with
  | nil => simp
  | cons first rest =>
      dsimp only
      split
      · next spawns =>
        rw [List.append_eq_nil_iff, Stmt.check_eq_nil_iff Types.shows_empty]
        constructor
        · rintro ⟨sound, clean⟩
          obtain ⟨Γ, shows, behind⟩ := sound.behind Types.shows_empty
          obtain ⟨once, all⟩ := (Stmt.checkBehindSpawn_eq_nil_iff shows).1 clean
          exact ⟨⟨first, rest, rfl, spawns, once⟩, (behind rest).2 all⟩
        · rintro ⟨⟨_, _, ⟨⟩, -, once⟩, all⟩
          obtain ⟨Γ, shows, behind⟩ := all.head.behind Types.shows_empty
          exact ⟨all.head, (Stmt.checkBehindSpawn_eq_nil_iff shows).2 ⟨once, (behind rest).1 all⟩⟩
      · next other =>
        constructor
        · intro clean
          cases clean
        · rintro ⟨⟨_, _, ⟨⟩, spawns, -⟩, -⟩
          exact absurd spawns other

/-- The checker accepts a program if and only if it is well formed. -/
theorem check_eq_nil_iff : p.check = [] ↔ p.WellFormed := by
  rw [check, List.append_eq_nil_iff, List.append_eq_nil_iff, collect_eq_nil_iff,
    unresolved_eq_nil_iff, checkStmts_eq_nil_iff]
  constructor
  · rintro ⟨⟨nodup, declared⟩, starts, sound⟩
    exact ⟨starts, nodup, declared, sound⟩
  · rintro ⟨starts, nodup, declared, sound⟩
    exact ⟨⟨nodup, declared⟩, starts, sound⟩

/-- What is found in a statement is reported. -/
theorem mem_check {i : Nat} {s : Stmt} {f : Located SemanticError} (at_i : p.stmts[i]? = some s)
    (fault : f ∈ (s.check (p.typesAt i)).2) : f ∈ p.check := by
  refine List.mem_append_right _ ?_
  rw [checkStmts]
  rw [typesAt] at fault
  cases stmts : p.stmts with
  | nil => simp [stmts] at at_i
  | cons first rest =>
      rw [stmts] at at_i fault
      dsimp only
      split
      · cases i with
        | zero =>
            cases at_i
            exact List.mem_append_left _ fault
        | succ i => exact List.mem_append_right _ (Stmt.mem_checkBehindSpawn at_i fault)
      · exact List.mem_cons_of_mem _ (Stmt.mem_checkAll at_i fault)

/-- **An expression without a type is one behind an error**: there is an error in the expression, or
one was reported for an earlier statement. -/
theorem error_of_untyped {i : Nat} {e : Expr} (untyped : (e.infer (p.typesAt i)).1 = none) :
    (e.infer (p.typesAt i)).2 ≠ [] ∨
      ∃ j s f, j < i ∧ p.stmts[j]? = some s ∧ f ∈ (s.check (p.typesAt j)).2 ∧ f ∈ p.check := by
  induction i using Nat.strongRecOn generalizing e with
  | ind i ih =>
      by_cases known : (p.typesAt i).Known
      · refine Or.inl fun clean => ?_
        obtain ⟨t, typed⟩ := Expr.infer_of_clean known clean
        rw [typed] at untyped
        cases untyped
      · -- some variable was assigned an expression without a type, and that is one behind an error
        rw [Types.Known, not_forall] at known
        obtain ⟨x, unknown⟩ := known
        obtain ⟨j, loc, e', earlier, assigns, untyped'⟩ :=
          assigned_of_typesAt (Classical.not_not.1 unknown)
        refine Or.inr ?_
        rcases ih j earlier untyped' with inside | ⟨k, s, f, before, at_k, fault⟩
        · obtain ⟨f, fault⟩ := List.exists_mem_of_ne_nil _ inside
          exact ⟨j, _, f, earlier, assigns, fault, mem_check assigns fault⟩
        · exact ⟨k, s, f, Nat.lt_trans before earlier, at_k, fault⟩

/-- The types of the variables in front of statement `i`, where they may have no value. -/
def staticTypesAt (p : Program) (i : Nat) : StaticTypes :=
  (p.stmts.take i).foldl Stmt.assignStatic .empty

/-- In front of every statement the types are the same on both sides. -/
theorem mirrors_typesAt (p : Program) (i : Nat) : (p.staticTypesAt i).Mirrors (p.typesAt i) :=
  Stmt.mirrors_typesBehind (fun _ => rfl) _

/-- **The checker decides which programs are well formed.** It reports nothing about a program if
and only if the program starts with its only `Spawn`, declares its labels once and all of those it
jumps to, and if all statements are sound in their order. In front of no statement does an
expression have the type without values; and an expression has no type only behind an error that has
been reported before, in the expression itself or in an earlier statement. -/
theorem checker_decides (p : Program) :
    (p.check = [] ↔ p.WellFormed) ∧
      (∀ (i : Nat) (e : Expr), e.inferStatic (p.staticTypesAt i) ≠ some .void ∧
        e.inferStatic (p.staticTypesAt i) = (e.infer (p.typesAt i)).1.map .value) ∧
      ∀ (i : Nat) (e : Expr), (e.infer (p.typesAt i)).1 = none →
        (e.infer (p.typesAt i)).2 ≠ [] ∨
          ∃ j s f, j < i ∧ p.stmts[j]? = some s ∧ f ∈ (s.check (p.typesAt j)).2 ∧ f ∈ p.check := by
  refine ⟨check_eq_nil_iff, fun i e => ?_, fun i e => error_of_untyped⟩
  have mirrors := p.mirrors_typesAt i
  exact ⟨Expr.inferStatic_ne_void mirrors e, Expr.inferStatic_eq mirrors e⟩

/-- A program whose only error silences all that follow from it: a variable is assigned one that
does not exist. -/
def silencing : Program where
  stmts := [
    ⟨⟨1, 1⟩, .spawn (.lit ⟨1, 7⟩ (.int .zero)) (.lit ⟨1, 10⟩ (.int .zero))⟩,
    ⟨⟨2, 1⟩, .assign "x" (.binary ⟨2, 6⟩ .mul (.var ⟨2, 6⟩ "y") (.lit ⟨2, 10⟩ (.int .one)))⟩,
    ⟨⟨3, 1⟩, .color (.var ⟨3, 7⟩ "x")⟩]

/-- The program is not well formed, and the variable that silences its last statement has no type
because of an error that was reported before. -/
theorem silencing_is_not_wellFormed :
    silencing.check = [⟨⟨2, 6⟩, .undefinedVariable "y"⟩] ∧ ¬silencing.WellFormed ∧
      (Expr.var ⟨3, 7⟩ "x").infer (silencing.typesAt 2) = (none, []) ∧
      ∃ j s f, j < 2 ∧ silencing.stmts[j]? = some s ∧ f ∈ (s.check (silencing.typesAt j)).2 ∧
        f ∈ silencing.check := by
  obtain ⟨decides, -, behind⟩ := checker_decides silencing
  have reported : silencing.check = [⟨⟨2, 6⟩, .undefinedVariable "y"⟩] := by decide +kernel
  have silent : (Expr.var ⟨3, 7⟩ "x").infer (silencing.typesAt 2) = (none, []) := by decide +kernel
  refine ⟨reported, fun wellFormed => ?_, silent, ?_⟩
  · cases reported.symm.trans (decides.2 wellFormed)
  · refine (behind 2 (.var ⟨3, 7⟩ "x") (by rw [silent])).resolve_left fun inside => ?_
    exact inside (by rw [silent])

end Program

end PenScript
