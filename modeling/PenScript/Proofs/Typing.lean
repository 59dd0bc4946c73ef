import PenScript.Check
import PenScript.Eval

/-!
# Values have the inferred types

Inference and evaluation walk over the same trees but never meet: one of them knows types of
variables and reports errors, the other one knows values and fails. This module joins them. An
expression without errors evaluates to a value of the inferred type, or it fails for a reason that
only values can give: a division by zero, a number out of range, a text that names no color.

The one thing that types cannot promise is that a variable has a value at all. So the tables are
compared only where both have an entry (`Types.Fits`), and an evaluation may fail at a variable that
has a type and no value (`Types.Tolerates`).

## Main results

* `Expr.infer_of_clean`: an expression without errors has a type;
* `Expr.eval_ensures`: the value of an expression has the inferred type.
-/

namespace PenScript

/-! ### What an evaluation ends with -/

namespace Eval

variable {α β : Type} {P : α → Prop} {Q : Failure → Prop}

/-- Whatever the dice show, a computation gives a result with `P` or a failure with `Q`. -/
def Ensures (P : α → Prop) (Q : Failure → Prop) (x : Eval α) : Prop :=
  ∀ throws, match x throws with
    | .ok (a, _) => P a
    | .error f => Q f

/-- A value that is returned is the result. -/
theorem Ensures.pure {a : α} (h : P a) : Ensures P Q (Pure.pure a) := fun _ => h

/-- A failure is the failure. -/
theorem Ensures.fail {loc : Location} {e : RuntimeError} (h : Q ⟨loc, e⟩) :
    Ensures P Q (Eval.fail loc e) := fun _ => h

/-- What the first computation ensures is at hand for the second one. -/
theorem Ensures.bind {R : β → Prop} {x : Eval α} {f : α → Eval β} (first : Ensures P Q x)
    (next : ∀ a, P a → Ensures R Q (f a)) : Ensures R Q (x >>= f) := by
  intro throws
  have now := first throws
  change match StateT.bind x f throws with
    | .ok (b, _) => R b
    | .error f => Q f
  unfold StateT.bind
  cases h : x throws with
  | error e =>
      rw [h] at now
      exact now
  | ok r =>
      obtain ⟨a, throws'⟩ := r
      rw [h] at now
      exact next a now throws'

end Eval

open Eval

/-! ### Errors that a look at the program can tell -/

/-- The errors about names, types and numbers of arguments. -/
def RuntimeError.isStatic : RuntimeError → Bool
  | undefinedVariable _ | unknownFunction _ | wrongArity .. | expectedInteger _ | expectedString _
  | incomparable .. | labelAgain _ | labelMissing _ => true
  | _ => false

namespace Types

/-- No variable has an unknown type. -/
def Known (types : Types) : Prop :=
  ∀ x, types.get? x ≠ some none

/-- Every variable with a type and a value has a value of its type. -/
def Fits (types : Types) (vars : Table Value) : Prop :=
  ∀ x t v, types.get? x = some t → vars.get? x = some v → t = some v.type

/-- The failures that types do not rule out: those that are not static, and a variable that has a
type but no value. -/
def Tolerates (types : Types) (vars : Table Value) (f : Failure) : Prop :=
  f.what.isStatic = false ∨
    ∃ x, f.what = .undefinedVariable x ∧ vars.get? x = none ∧ (types.get? x).isSome

end Types

/-! ### Reading values -/

namespace Value

/-- A value of the numeric type is an integer. -/
theorem exists_asInt? {v : Value} (h : v.type = .intOrBool) : ∃ n, v.asInt? = some n := by
  cases v with
  | int n => exact ⟨n, rfl⟩
  | bool b => exact ⟨.ofBool b, rfl⟩
  | str s => cases h

/-- A value of the numeric type is a boolean. -/
theorem exists_asBool? {v : Value} (h : v.type = .intOrBool) : ∃ b, v.asBool? = some b := by
  cases v with
  | int n => exact ⟨n.val != 0, rfl⟩
  | bool b => exact ⟨b, rfl⟩
  | str s => cases h

/-- A value of the text type is a string. -/
theorem exists_asStr? {v : Value} (h : v.type = .str) : ∃ s, v.asStr? = some s := by
  cases v with
  | int n => cases h
  | bool b => cases h
  | str s => exact ⟨s, rfl⟩

end Value

section Reading

variable {Q : Failure → Prop} {v : Value} (loc : Location) (role : Role)

/-- A value of the type of integers always has an integer reading. -/
theorem Eval.integer_ensures (h : v.type = .intOrBool) :
    Ensures (fun _ => True) Q (Eval.integer loc role v) := by
  obtain ⟨n, hn⟩ := Value.exists_asInt? h
  rw [Eval.integer, hn]
  exact Ensures.pure trivial

/-- A value of the type of booleans always has a boolean reading. -/
theorem Eval.truth_ensures (h : v.type = .intOrBool) :
    Ensures (fun _ => True) Q (Eval.truth loc role v) := by
  obtain ⟨b, hb⟩ := Value.exists_asBool? h
  rw [Eval.truth, hb]
  exact Ensures.pure trivial

/-- A value of the type of strings always is a string. -/
theorem Eval.string_ensures (h : v.type = .str) :
    Ensures (fun _ => True) Q (Eval.string loc role v) := by
  obtain ⟨s, hs⟩ := Value.exists_asStr? h
  rw [Eval.string, hs]
  exact Ensures.pure trivial

end Reading

/-! ### Operators -/

section Operators

variable {Q : Failure → Prop} (dynamic : ∀ f : Failure, f.what.isStatic = false → Q f)
include dynamic

/-- An exact result is an integer, and its absence is no static error. -/
theorem Eval.exact_ensures (loc : Location) (symbol : String) (n : Option Integer) :
    Ensures (fun v => v.type = .intOrBool) Q (Eval.exact loc symbol n) := by
  cases n with
  | none => exact Ensures.fail (dynamic _ rfl)
  | some n => exact Ensures.pure rfl

/-- A color name is a string, and a string that names no color is no static error. -/
theorem Eval.color_ensures (loc : Location) (s : String) :
    Ensures (fun _ => True) Q (Eval.color loc s) := by
  unfold Eval.color
  split
  · exact Ensures.pure trivial
  · exact Ensures.fail (dynamic _ rfl)

/-- A repeated text is a text. -/
theorem repeatText_ensures (loc : Location) (s : String) (n : Integer) :
    Ensures (fun v => v.type = .str) Q (repeatText loc s n) := by
  unfold repeatText
  split
  · exact Ensures.fail (dynamic _ rfl)
  · split
    · exact Ensures.pure rfl
    · exact Ensures.fail (dynamic _ rfl)

namespace BinaryOp

/-- The operators on integers give integers or booleans. -/
theorem applyIntegers_ensures (op : BinaryOp) (loc rhsLoc : Location) (a b : Integer) :
    Ensures (fun v => v.type = .intOrBool) Q (op.applyIntegers loc rhsLoc a b) := by
  have guarded {c : Prop} [Decidable c] (e : RuntimeError) (n : Option Integer)
      (he : e.isStatic = false) : Ensures (fun v => v.type = .intOrBool) Q
        (if c then Eval.fail rhsLoc e else Eval.exact loc op.symbol n) := by
    split
    · exact Ensures.fail (dynamic _ he)
    · exact Eval.exact_ensures dynamic _ _ _
  cases op with
  | sub => exact Eval.exact_ensures dynamic _ _ _
  | div => exact guarded _ _ rfl
  | mod => exact guarded _ _ rfl
  | pow => exact guarded _ _ rfl
  | _ => exact Ensures.pure rfl

/-- A sum is an integer, or a text as soon as one operand is one. -/
theorem applyValues_add_ensures {loc lhsLoc rhsLoc : Location} {v w : Value} {t : Ty}
    (typed : add.infer loc lhsLoc rhsLoc (some v.type) (some w.type) = (some t, [])) :
    Ensures (fun u => u.type = t) Q (add.applyValues loc rhsLoc v w) := by
  cases v with
  | str s =>
      cases w with
      | int _ | bool _ | str _ =>
          cases typed
          exact Ensures.pure rfl
  | int _ | bool _ =>
      cases w with
      | str s =>
          cases typed
          exact Ensures.pure rfl
      | int _ | bool _ =>
          cases typed
          exact Eval.exact_ensures dynamic _ _ _

/-- A product is an integer, or a text if one operand is one; inference refuses two texts. -/
theorem applyValues_mul_ensures {loc lhsLoc rhsLoc : Location} {v w : Value} {t : Ty}
    (typed : mul.infer loc lhsLoc rhsLoc (some v.type) (some w.type) = (some t, [])) :
    Ensures (fun u => u.type = t) Q (mul.applyValues loc rhsLoc v w) := by
  cases v with
  | str s =>
      cases w with
      | str s => cases typed
      | int _ | bool _ =>
          cases typed
          exact repeatText_ensures dynamic _ _ _
  | int _ | bool _ =>
      cases w with
      | str s =>
          cases typed
          exact repeatText_ensures dynamic _ _ _
      | int _ | bool _ =>
          cases typed
          exact Eval.exact_ensures dynamic _ _ _

end BinaryOp

end Operators

/-- A comparison is a boolean; inference refuses operands of two types, and nothing else fails. -/
theorem BinaryOp.applyValues_compare_ensures {Q : Failure → Prop} {op : BinaryOp}
    {loc lhsLoc rhsLoc : Location} {v w : Value} {t : Ty} (comparison : op = .eq ∨ op = .ne)
    (typed : op.infer loc lhsLoc rhsLoc (some v.type) (some w.type) = (some t, [])) :
    Ensures (fun u => u.type = t) Q (op.applyValues loc rhsLoc v w) := by
  by_cases same : v.type = w.type
  · rcases comparison with rfl | rfl <;>
    · simp only [infer, same, if_true, Prod.mk.injEq, Option.some.injEq, and_true] at typed
      simp only [applyValues, same, if_true]
      exact Ensures.pure typed
  · rcases comparison with rfl | rfl <;>
    · simp only [infer, same, if_false, Prod.mk.injEq, reduceCtorEq, false_and] at typed

/-! ### Built-in functions -/

namespace Query

section Ask

variable {Q : Failure → Prop} (dynamic : ∀ f : Failure, f.what.isStatic = false → Q f)

/-- A numeric argument is accepted as an integer. -/
theorem integerArg_ensures (q : Query) (loc : Location) (i : Nat) {v : Value}
    (h : v.type = .intOrBool) : Ensures (fun _ => True) Q (q.integerArg loc i v) :=
  Eval.integer_ensures loc _ h

include dynamic

/-- A text argument is a color, or the failure is no static one. -/
theorem colorArg_ensures (q : Query) (loc : Location) (i : Nat) {v : Value} (h : v.type = .str) :
    Ensures (fun _ => True) Q (q.colorArg loc i v) :=
  Ensures.bind (Eval.string_ensures loc _ h) fun s _ => Eval.color_ensures dynamic loc s

/-- A query whose arguments have the types of its parameters answers an integer or a boolean. -/
theorem ask_ensures (q : Query) (s : Scene) (loc : Location) {args : List Value}
    (typed : args.map Value.type = q.params) :
    Ensures (fun v => v.type = .intOrBool) Q (q.ask s loc args) := by
  cases q with
  | actualX | actualY | canvasSize =>
      obtain rfl := List.map_eq_nil_iff.1 typed
      exact Ensures.pure rfl
  | brushColor =>
      obtain ⟨c, rfl, hc⟩ := List.map_eq_singleton_iff.1 typed
      exact Ensures.bind (colorArg_ensures dynamic _ loc 1 hc) fun _ _ => Ensures.pure rfl
  | brushSize =>
      obtain ⟨n, rfl, hn⟩ := List.map_eq_singleton_iff.1 typed
      exact Ensures.bind (integerArg_ensures _ loc 1 hn) fun _ _ => Ensures.pure rfl
  | canvasColor =>
      obtain ⟨c, args, rfl, hc, typed⟩ := List.map_eq_cons_iff.1 typed
      obtain ⟨x, args, rfl, hx, typed⟩ := List.map_eq_cons_iff.1 typed
      obtain ⟨y, rfl, hy⟩ := List.map_eq_singleton_iff.1 typed
      refine Ensures.bind (colorArg_ensures dynamic _ loc 1 hc) fun _ _ => ?_
      refine Ensures.bind (integerArg_ensures _ loc 2 hx) fun _ _ => ?_
      refine Ensures.bind (integerArg_ensures _ loc 3 hy) fun _ _ => ?_
      exact Ensures.pure rfl
  | colorCount =>
      obtain ⟨c, args, rfl, hc, typed⟩ := List.map_eq_cons_iff.1 typed
      obtain ⟨x, args, rfl, hx, typed⟩ := List.map_eq_cons_iff.1 typed
      obtain ⟨y, args, rfl, hy, typed⟩ := List.map_eq_cons_iff.1 typed
      obtain ⟨w, args, rfl, hw, typed⟩ := List.map_eq_cons_iff.1 typed
      obtain ⟨h, rfl, hh⟩ := List.map_eq_singleton_iff.1 typed
      refine Ensures.bind (colorArg_ensures dynamic _ loc 1 hc) fun _ _ => ?_
      refine Ensures.bind (integerArg_ensures _ loc 2 hx) fun _ _ => ?_
      refine Ensures.bind (integerArg_ensures _ loc 3 hy) fun _ _ => ?_
      refine Ensures.bind (integerArg_ensures _ loc 4 hw) fun _ _ => ?_
      refine Ensures.bind (integerArg_ensures _ loc 5 hh) fun _ _ => ?_
      exact Ensures.pure rfl
  | randomInt =>
      obtain ⟨lo, args, rfl, hlo, typed⟩ := List.map_eq_cons_iff.1 typed
      obtain ⟨hi, rfl, hhi⟩ := List.map_eq_singleton_iff.1 typed
      refine Ensures.bind (integerArg_ensures _ loc 1 hlo) fun lo _ => ?_
      refine Ensures.bind (integerArg_ensures _ loc 2 hhi) fun hi _ => ?_
      split
      · exact fun _ => rfl
      · exact Ensures.fail (dynamic _ rfl)

end Ask

end Query

/-! ### Expressions without errors have a type -/

/-- A type is not complained about if it is the expected one. -/
theorem expectType_some_eq_nil {loc : Location} {role : Role} {expected t : Ty} :
    expectType loc role expected (some t) = [] ↔ t = expected := by
  simp [expectType]

/-- An operator on operands of known types either gives a type or reports an error. -/
theorem BinaryOp.infer_of_clean {op : BinaryOp} {loc lhsLoc rhsLoc : Location} {a b : Ty}
    (clean : (op.infer loc lhsLoc rhsLoc (some a) (some b)).2 = []) :
    ∃ t, op.infer loc lhsLoc rhsLoc (some a) (some b) = (some t, []) := by
  cases op with
  | add => cases a <;> cases b <;> exact ⟨_, rfl⟩
  | mul =>
      cases a with
      | intOrBool => cases b <;> exact ⟨_, rfl⟩
      | str =>
          cases b with
          | intOrBool => exact ⟨_, rfl⟩
          | str => cases clean
  | eq | ne =>
      by_cases same : a = b
      · exact ⟨.intOrBool, by simp [infer, same]⟩
      · simp [infer, same] at clean
  | _ =>
      simp only [infer, List.append_eq_nil_iff, expectType_some_eq_nil] at clean
      obtain ⟨rfl, rfl⟩ := clean
      exact ⟨_, rfl⟩

namespace Query

/-- Arguments of known types that raise no error have the types of the parameters. -/
theorem types_of_argErrors_eq_nil {q : Query} {params : List Ty}
    {args : List (Location × Option Ty)} {i : Nat} (length : args.length = params.length)
    (known : ∀ a ∈ args, a.2 ≠ none) (clean : q.argErrors i params args = []) :
    args.map Prod.snd = params.map some := by
  induction params generalizing args i with
  | nil =>
      obtain rfl := List.length_eq_zero_iff.1 length
      rfl
  | cons expected params ih =>
      cases args with
      | nil => cases length
      | cons a args =>
          obtain ⟨loc, found⟩ := a
          rw [argErrors, List.append_eq_nil_iff] at clean
          obtain ⟨t, rfl⟩ := Option.ne_none_iff_exists'.1 (known (loc, found) List.mem_cons_self)
          obtain rfl := expectType_some_eq_nil.1 clean.1
          have rest := ih (Nat.succ.inj length)
            (fun a ha => known a (List.mem_cons_of_mem _ ha)) clean.2
          rw [List.map_cons, List.map_cons, rest]

end Query

/-- A call without errors is a call of a query, with arguments of the types it asks for. -/
theorem inferCall_of_clean {loc : Location} {name : String} {args : List (Location × Option Ty)}
    (known : ∀ a ∈ args, a.2 ≠ none) (clean : (inferCall loc name args).2 = []) :
    ∃ q, Query.ofName? name = some q ∧ inferCall loc name args = (some .intOrBool, []) ∧
      args.map Prod.snd = q.params.map some := by
  cases hq : Query.ofName? name with
  | none => simp [inferCall, hq] at clean
  | some q =>
      simp only [inferCall, hq] at clean ⊢
      by_cases length : args.length = q.arity
      · rw [if_pos length] at clean ⊢
        exact ⟨q, rfl, by rw [clean]; rfl, Query.types_of_argErrors_eq_nil length known clean⟩
      · simp [length] at clean

namespace Expr

/-- The arguments are typed one by one. -/
theorem inferAll_fst (types : Types) (es : List Expr) :
    (inferAll types es).1 = es.map fun e => (e.loc, (e.infer types).1) := by
  induction es with
  | nil => rfl
  | cons e es ih => rw [inferAll, List.map_cons, ← ih]

/-- The errors of the arguments come one after another. -/
theorem inferAll_snd (types : Types) (es : List Expr) :
    (inferAll types es).2 = es.flatMap fun e => (e.infer types).2 := by
  induction es with
  | nil => rfl
  | cons e es ih => rw [inferAll, List.flatMap_cons, ← ih]

/-- A call is typed behind its arguments. -/
theorem infer_call (types : Types) (l : Location) (f : String) (args : List Expr) :
    (call l f args).infer types = ((inferCall l f (inferAll types args).1).1,
      (inferAll types args).2 ++ (inferCall l f (inferAll types args).1).2) := by
  rw [infer]

/-- A unary operator is numeric, whatever its operand. -/
theorem infer_unary (types : Types) (l : Location) (op : UnaryOp) (e : Expr) :
    (unary l op e).infer types = (some .intOrBool,
      (e.infer types).2 ++ expectType e.loc (.operand op) .intOrBool (e.infer types).1) := by
  rw [infer]

/-- A binary operator is typed behind its operands. -/
theorem infer_binary (types : Types) (l : Location) (op : BinaryOp) (a b : Expr) :
    (binary l op a b).infer types =
      ((op.infer l a.loc b.loc (a.infer types).1 (b.infer types).1).1,
        (a.infer types).2 ++ (b.infer types).2 ++
          (op.infer l a.loc b.loc (a.infer types).1 (b.infer types).1).2) := by
  rw [infer]

/-- The arguments of a call without errors have types of their own. -/
theorem args_known {types : Types} {args : List Expr}
    (typed : ∀ a ∈ args, (a.infer types).2 = [] → ∃ t, a.infer types = (some t, []))
    (clean : (inferAll types args).2 = []) : ∀ a ∈ (inferAll types args).1, a.2 ≠ none := by
  rw [inferAll_snd, List.flatMap_eq_nil_iff] at clean
  rw [inferAll_fst]
  intro a ha
  obtain ⟨e, he, rfl⟩ := List.mem_map.1 ha
  obtain ⟨t, ht⟩ := typed e he (clean e he)
  simp [ht]

/-- An expression without errors has a type, if all variables have. -/
theorem infer_of_clean {types : Types} (known : types.Known) {e : Expr}
    (clean : (e.infer types).2 = []) : ∃ t, e.infer types = (some t, []) := by
  induction e using inductionOn with
  | lit l v => exact ⟨v.type, by rw [infer]⟩
  | var l x =>
      cases hx : types.get? x with
      | none => simp [infer, hx] at clean
      | some t =>
          obtain ⟨t, rfl⟩ := Option.ne_none_iff_exists'.1 fun h => known x (h ▸ hx)
          exact ⟨t, by simp [infer, hx]⟩
  | call l f args ih =>
      rw [infer_call, List.append_eq_nil_iff] at clean
      obtain ⟨-, -, ht, -⟩ := inferCall_of_clean (args_known ih clean.1) clean.2
      exact ⟨.intOrBool, by rw [infer_call, clean.1, ht, List.append_nil]⟩
  | group l e ih =>
      rw [infer] at clean ⊢
      exact ih clean
  | unary l op e ih =>
      rw [infer_unary, List.append_eq_nil_iff] at clean
      exact ⟨.intOrBool, by rw [infer_unary, clean.1, clean.2, List.append_nil]⟩
  | binary l op a b iha ihb =>
      rw [infer_binary, List.append_eq_nil_iff, List.append_eq_nil_iff] at clean
      obtain ⟨⟨cleanA, cleanB⟩, clean⟩ := clean
      obtain ⟨ta, ha⟩ := iha cleanA
      obtain ⟨tb, hb⟩ := ihb cleanB
      rw [ha, hb] at clean
      obtain ⟨t, ht⟩ := BinaryOp.infer_of_clean clean
      exact ⟨t, by rw [infer_binary, ha, hb, ht]; rfl⟩

/-! ### Values have the inferred type -/

/-- The operators that look at one operand after the other have integer operands, and give
integers or booleans. -/
theorem operands_of_integers {op : BinaryOp} {loc lhsLoc rhsLoc : Location} {a b t : Ty}
    (special : op ≠ .add ∧ op ≠ .mul ∧ op ≠ .eq ∧ op ≠ .ne)
    (typed : op.infer loc lhsLoc rhsLoc (some a) (some b) = (some t, [])) :
    a = .intOrBool ∧ b = .intOrBool ∧ t = .intOrBool := by
  obtain ⟨type, clean⟩ := Prod.mk.inj typed
  have operands : a = .intOrBool ∧ b = .intOrBool := by
    cases op <;> simp_all [BinaryOp.infer, expectType_some_eq_nil]
  obtain ⟨rfl, rfl⟩ := operands
  refine ⟨rfl, rfl, ?_⟩
  cases op <;> simp_all [BinaryOp.infer]

section Soundness

variable {types : Types} {s : Scene}

/-- A failure that no check can foresee is tolerated. -/
theorem tolerates_of_dynamic (vars : Table Value) (f : Failure) (h : f.what.isStatic = false) :
    types.Tolerates vars f :=
  Or.inl h

/-- A variable has a value of its type, or no value. -/
theorem eval_var_ensures (fits : types.Fits s.vars) {l : Location} {x : String} {t : Ty}
    (typed : (var l x).infer types = (some t, [])) :
    Ensures (fun v => v.type = t) (types.Tolerates s.vars) ((var l x).eval s) := by
  cases hx : types.get? x with
  | none => simp [infer, hx] at typed
  | some found =>
      simp only [infer, hx, Prod.mk.injEq, and_true] at typed
      subst typed
      rw [eval]
      cases hv : s.vars.get? x with
      | none => exact Ensures.fail (Or.inr ⟨x, rfl, hv, by rw [hx]; rfl⟩)
      | some v => exact Ensures.pure (Option.some.inj (fits x _ v hx hv)).symm

/-- The values of arguments have the types of the arguments. -/
theorem evalAll_ensures {es : List Expr} {ts : List Ty}
    (each : ∀ e ∈ es, ∀ t, e.infer types = (some t, []) →
      Ensures (fun v => v.type = t) (types.Tolerates s.vars) (e.eval s))
    (typed : es.map (fun e => e.infer types) = ts.map fun t => (some t, [])) :
    Ensures (fun vs => vs.map Value.type = ts) (types.Tolerates s.vars) (evalAll s es) := by
  induction es generalizing ts with
  | nil =>
      obtain rfl := List.map_eq_nil_iff.1 typed.symm
      rw [evalAll]
      exact Ensures.pure rfl
  | cons e es ih =>
      obtain ⟨t, ts, rfl, ht, rest⟩ := List.map_eq_cons_iff.1 typed.symm
      rw [evalAll]
      refine Ensures.bind (each e List.mem_cons_self t ht.symm) fun v hv => ?_
      refine Ensures.bind (ih (fun e he => each e (List.mem_cons_of_mem _ he)) rest.symm)
        fun vs hvs => ?_
      exact Ensures.pure (by rw [List.map_cons, hv, hvs])

/-- The result of an operator has the inferred type. The operators that look at both values together
are sound case by case; all others need integers and ask for them in turn. -/
theorem eval_binary_ensures {l : Location} {op : BinaryOp} {a b : Expr} {ta tb t : Ty}
    (lhs : Ensures (fun v => v.type = ta) (types.Tolerates s.vars) (a.eval s))
    (rhs : Ensures (fun v => v.type = tb) (types.Tolerates s.vars) (b.eval s))
    (typed : op.infer l a.loc b.loc (some ta) (some tb) = (some t, [])) :
    Ensures (fun v => v.type = t) (types.Tolerates s.vars) ((binary l op a b).eval s) := by
  cases op with
  | add =>
      rw [eval]
      refine Ensures.bind lhs fun v hv => Ensures.bind rhs fun w hw => ?_
      subst hv hw
      exact BinaryOp.applyValues_add_ensures (tolerates_of_dynamic _) typed
  | mul =>
      rw [eval]
      refine Ensures.bind lhs fun v hv => Ensures.bind rhs fun w hw => ?_
      subst hv hw
      exact BinaryOp.applyValues_mul_ensures (tolerates_of_dynamic _) typed
  | eq | ne =>
      rw [eval]
      refine Ensures.bind lhs fun v hv => Ensures.bind rhs fun w hw => ?_
      subst hv hw
      exact BinaryOp.applyValues_compare_ensures (by decide) typed
  | and | or =>
      obtain ⟨rfl, rfl, rfl⟩ := operands_of_integers (by decide) typed
      rw [eval]
      refine Ensures.bind lhs fun v hv => ?_
      refine Ensures.bind (Eval.truth_ensures _ _ hv) fun x _ => ?_
      split
      · exact Ensures.pure rfl
      · refine Ensures.bind rhs fun w hw => ?_
        refine Ensures.bind (Eval.truth_ensures _ _ hw) fun y _ => ?_
        exact Ensures.pure rfl
  | sub | div | pow | mod | gt | ge | lt | le =>
      obtain ⟨rfl, rfl, rfl⟩ := operands_of_integers (by decide) typed
      rw [eval]
      · refine Ensures.bind lhs fun v hv => ?_
        refine Ensures.bind (Eval.integer_ensures _ _ hv) fun x _ => ?_
        refine Ensures.bind rhs fun w hw => ?_
        refine Ensures.bind (Eval.integer_ensures _ _ hw) fun y _ => ?_
        exact BinaryOp.applyIntegers_ensures (tolerates_of_dynamic _) _ _ _ _ _
      all_goals simp

/-- The arguments of a call without errors have the types of the parameters. -/
theorem args_typed {args : List Expr} {params : List Ty}
    (clean : (inferAll types args).2 = [])
    (found : (inferAll types args).1.map Prod.snd = params.map some) :
    args.map (fun e => e.infer types) = params.map fun t => (some t, []) := by
  rw [inferAll_snd, List.flatMap_eq_nil_iff] at clean
  rw [inferAll_fst, List.map_map] at found
  calc args.map (fun e => e.infer types)
      = args.map fun e => ((e.infer types).1, []) :=
        List.map_congr_left fun e he => Prod.ext rfl (clean e he)
    _ = (args.map fun e => (e.infer types).1).map fun o => (o, []) := by rw [List.map_map]; rfl
    _ = (params.map some).map fun o => (o, []) := by rw [← found]; rfl
    _ = params.map fun t => (some t, []) := by rw [List.map_map]; rfl

/-- **Soundness of inference.** An expression evaluates to a value of its inferred type, or it fails
in a way that types do not rule out. -/
theorem eval_ensures (known : types.Known) (fits : types.Fits s.vars) {e : Expr} {t : Ty}
    (typed : e.infer types = (some t, [])) :
    Ensures (fun v => v.type = t) (types.Tolerates s.vars) (e.eval s) := by
  induction e using inductionOn generalizing t with
  | lit l v =>
      rw [infer] at typed
      cases typed
      rw [eval]
      exact Ensures.pure rfl
  | var l x => exact eval_var_ensures fits typed
  | call l f args ih =>
      rw [infer_call, Prod.mk.injEq, List.append_eq_nil_iff] at typed
      obtain ⟨ht, clean, call⟩ := typed
      obtain ⟨q, hq, type, found⟩ :=
        inferCall_of_clean (args_known (fun a _ => infer_of_clean known) clean) call
      rw [type] at ht
      cases ht
      simp only [eval, hq]
      refine Ensures.bind (evalAll_ensures (fun a ha t => ih a ha) (args_typed clean found))
        fun vs hvs => ?_
      exact Query.ask_ensures (tolerates_of_dynamic _) q s l hvs
  | group l e ih =>
      rw [infer] at typed
      rw [eval]
      exact ih typed
  | unary l op e ih =>
      rw [infer_unary, Prod.mk.injEq, List.append_eq_nil_iff] at typed
      obtain ⟨ht, clean, operand⟩ := typed
      cases ht
      obtain ⟨te, he⟩ := infer_of_clean known clean
      rw [he] at operand
      obtain rfl := expectType_some_eq_nil.1 operand
      cases op with
      | not =>
          rw [eval]
          refine Ensures.bind (ih he) fun v hv => ?_
          refine Ensures.bind (Eval.truth_ensures _ _ hv) fun b _ => ?_
          exact Ensures.pure rfl
      | neg =>
          rw [eval]
          refine Ensures.bind (ih he) fun v hv => ?_
          refine Ensures.bind (Eval.integer_ensures _ _ hv) fun n _ => ?_
          exact Eval.exact_ensures (tolerates_of_dynamic _) _ _ _
  | binary l op a b iha ihb =>
      rw [infer_binary, Prod.mk.injEq, List.append_eq_nil_iff, List.append_eq_nil_iff] at typed
      obtain ⟨ht, ⟨cleanA, cleanB⟩, clean⟩ := typed
      obtain ⟨ta, ha⟩ := infer_of_clean known cleanA
      obtain ⟨tb, hb⟩ := infer_of_clean known cleanB
      rw [ha, hb] at ht clean
      exact eval_binary_ensures (iha ha) (ihb hb) (Prod.ext ht clean)

end Soundness

end Expr

end PenScript
