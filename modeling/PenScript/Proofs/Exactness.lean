import Mathlib.Algebra.Order.Group.Int
import Mathlib.Algebra.Ring.Parity
import Mathlib.Tactic.Ring
import PenScript.Proofs.Unbounded

/-!
# Arithmetic is exact

Evaluating an expression with integers of 64 bits and evaluating it with integers of any size go
side by side, node by node, until an operation is refused. Up to there all integers are in range and
the two have found the same values; there the evaluation within 64 bits stops, with an overflow. If
no operation is refused then the two end alike: with the same value, or with a failure that has
another reason. So whatever is returned is exact, and an overflow is the operation that comes first
among those that have no result in range.

## Main definitions

* `Unbounded.Agrees` — the end of an evaluation fits the record of the unbounded one;
* `Unbounded.Tracks` — two computations agree, whatever the dice show.

## Main results

* `Integer.pow?_eq`: a power is exact or refused, whatever the exponent;
* `Unbounded.Tracks.bind`: computations that go side by side one after the other;
* `Expr.tracks_eval`: evaluation within 64 bits tracks the unbounded one;
* `Expr.arithmetic_is_exact`: what is returned, and when there is an overflow.
-/

namespace PenScript

/-! ### Integers of 64 bits -/

namespace Integer

/-- Integers with one value are one. -/
theorem val_injective : Function.Injective val := by
  rintro ⟨a, _, _⟩ ⟨b, _, _⟩ same
  cases same
  rfl

/-- Every number in range is the value of an integer. -/
theorem exists_of_inRange {z : Int} (inside : InRange z) : ∃ n : Integer, n.val = z :=
  ⟨⟨z, inside.1, inside.2⟩, rfl⟩

/-- Two integers are in range. -/
theorem pair_inRange (a b : Integer) : ∀ z ∈ [a.val, b.val], InRange z :=
  List.forall_mem_cons.2 ⟨a.inRange, List.forall_mem_singleton.2 b.inRange⟩

/-- There is no integer for a number out of range. -/
theorem ofInt?_of_not_inRange {z : Int} (outside : ¬InRange z) : ofInt? z = none :=
  dif_neg outside

/-- A quotient is out of range in one case only. -/
theorem tdiv_inRange_iff {a b : Integer} (nonzero : b.val ≠ 0) :
    InRange (a.val.tdiv b.val) ↔ ¬(a.val = -9223372036854775808 ∧ b.val = -1) := by
  have lo := a.lo_le
  have hi := a.le_hi
  constructor
  · rintro inside ⟨least, minus⟩
    rw [least, minus] at inside
    exact absurd inside (by decide)
  · intro other
    by_cases minus : b.val = -1
    · rw [minus, Int.tdiv_neg, Int.tdiv_one, InRange]
      omega
    · -- the quotient is no further from zero than the dividend, and half as far if the divisor is
      -- not one
      by_cases one : b.val = 1
      · rw [one, Int.tdiv_one]
        exact a.inRange
      · have half : (a.val.tdiv b.val).natAbs ≤ a.val.natAbs / 2 := by
          rw [Int.natAbs_tdiv]
          exact Nat.div_le_div_left (by omega) (by decide)
        rw [InRange]
        omega

/-- A remainder is closer to zero than the divisor, so it is always in range. -/
theorem tmod_inRange (a : Int) {b : Integer} (nonzero : b.val ≠ 0) : InRange (a.tmod b.val) := by
  have lo := b.lo_le
  have hi := b.le_hi
  have near : (a.tmod b.val).natAbs < b.val.natAbs := by
    rw [Int.natAbs_tmod]
    exact Nat.mod_lt _ (by omega)
  rw [InRange]
  omega

/-- A large power of a number that is neither minus one, zero nor one is out of range. -/
theorem pow_not_inRange {a : Int} {e : Nat} (large : 64 ≤ e) (far : 2 ≤ a.natAbs) :
    ¬InRange (a ^ e) := by
  have grows : 2 ^ 64 ≤ (a ^ e).natAbs := by
    rw [Int.natAbs_pow]
    calc 2 ^ 64 ≤ 2 ^ e := Nat.pow_le_pow_right (by decide) large
      _ ≤ a.natAbs ^ e := Nat.pow_le_pow_left far e
  rw [InRange]
  omega

/-- **A power is exact or refused**, whatever the exponent. -/
theorem pow?_eq (a : Integer) (e : Nat) : a.pow? e = ofInt? (a.val ^ e) := by
  rw [pow?]
  by_cases small : e < 64
  · rw [if_pos small]
    rfl
  · rw [if_neg small]
    have some : e ≠ 0 := by omega
    split
    · next unit =>
      rcases unit with zero | one
      · rw [zero, zero_pow some, ← zero, ofInt?_val]
      · rw [one, one_pow, ← one, ofInt?_val]
    · next other =>
      split
      · next minus =>
        rw [minus, neg_one_pow_eq_pow_mod_two]
        rfl
      · next far => exact (ofInt?_of_not_inRange (pow_not_inRange (by omega) (by omega))).symm

end Integer

/-! ### Values -/

namespace Value

/-- A value is in range, also as an unbounded one. -/
theorem unbounded_inRange (v : Value) : v.unbounded.InRange := by
  cases v with
  | int n => exact n.inRange
  | bool b => exact trivial
  | str s => exact trivial

/-- Values are told apart as unbounded ones. -/
theorem unbounded_injective : Function.Injective Value.unbounded := by
  intro v w same
  cases v <;> cases w <;> simp only [unbounded, Unbounded.Value.int.injEq,
    Unbounded.Value.bool.injEq, Unbounded.Value.str.injEq, reduceCtorEq] at same
  · rw [Integer.val_injective same]
  · rw [same]
  · rw [same]

/-- A value has its type without bounds. -/
@[simp] theorem type_unbounded (v : Value) : v.unbounded.type = v.type := by
  cases v <;> rfl

/-- A value has its text without bounds. -/
@[simp] theorem text_unbounded (v : Value) : v.unbounded.text = v.text := by
  cases v <;> rfl

/-- A value is the same string without bounds. -/
@[simp] theorem asStr?_unbounded (v : Value) : v.unbounded.asStr? = v.asStr? := by
  cases v <;> rfl

/-- A value is the same boolean without bounds. -/
@[simp] theorem asBool?_unbounded (v : Value) : v.unbounded.asBool? = v.asBool? := by
  cases v <;> rfl

/-- A value is the same integer without bounds. -/
@[simp] theorem asInt?_unbounded (v : Value) : v.unbounded.asInt? = v.asInt?.map Integer.val := by
  rcases v with n | (_ | _) | s <;> rfl

/-- Values that are the same are the same without bounds. -/
@[simp] theorem same_unbounded (v w : Value) : v.unbounded.same w.unbounded = v.same w := by
  have integers : v.asInt?.map Integer.val = w.asInt?.map Integer.val ↔ v.asInt? = w.asInt? :=
    (Option.map_injective Integer.val_injective).eq_iff
  simp only [Unbounded.Value.same, same, asInt?_unbounded, asStr?_unbounded, integers]

end Value

/-! ### Evaluating side by side -/

/-- Whether a result is out of range. -/
def RuntimeError.isOverflow : RuntimeError → Bool
  | overflow _ => true
  | _ => false

namespace Unbounded

/-- Whether an operation is a remainder, which is refused though it is in range. -/
def Operation.isMod : Operation → Bool
  | mod .. => true
  | _ => false

/-- The value of a node is in range, and it is not the result of an operation that is refused. -/
def Event.Clean (e : Event) : Prop :=
  e.isRefused = false ∧ e.value.InRange

/-- The end of an evaluation within 64 bits fits an unbounded one. The events are clean and both
return, or both fail for a reason that has nothing to do with the range. Or the first event that is
not clean tells why there is an overflow: one evaluation fails at the operation that is refused
there, and the other one may go on. -/
inductive Agrees {α β : Type} (f : α → β) :
    Except Failure (α × Nat) → List Event × Except Notice (β × Nat) → Prop
  | value {events : List Event} {a : α} {throws : Nat} (clean : ∀ e ∈ events, e.Clean) :
      Agrees f (.ok (a, throws)) (events, .ok (f a, throws))
  | failure {events : List Event} {loc : Location} {what : RuntimeError}
      (clean : ∀ e ∈ events, e.Clean) (other : what.isOverflow = false) :
      Agrees f (.error ⟨loc, what⟩) (events, .error ⟨loc, what.message⟩)
  | overflow {before after : List Event} {e : Event} {o : Operation}
      {result : Except Notice (β × Nat)} (clean : ∀ e ∈ before, e.Clean)
      (operation : e.operation? = some o) (refused : o.Refused)
      (operands : ∀ a ∈ o.operands, Integer.InRange a) :
      Agrees f (.error ⟨e.loc, .overflow o.symbol⟩) (before ++ e :: after, result)

section Agrees

variable {α β : Type} {f : α → β} {x : Except Failure (α × Nat)}
  {y : List Event × Except Notice (β × Nat)}

/-- Clean events in front change nothing. -/
theorem Agrees.append (agrees : Agrees f x y) {events : List Event}
    (clean : ∀ e ∈ events, e.Clean) : Agrees f x (events ++ y.1, y.2) := by
  have both {more : List Event} (rest : ∀ e ∈ more, e.Clean) : ∀ e ∈ events ++ more, e.Clean := by
    intro e he
    rcases List.mem_append.1 he with he | he
    · exact clean e he
    · exact rest e he
  cases agrees with
  | value rest => exact .value (both rest)
  | failure rest other => exact .failure (both rest) other
  | overflow rest operation refused operands =>
      rw [← List.append_assoc]
      exact .overflow (both rest) operation refused operands

/-- An operation that is refused makes a refused event. -/
theorem Event.isRefused_of_operation {e : Event} {o : Operation} (operation : e.operation? = some o)
    (refused : o.Refused) : e.isRefused := by
  rw [isRefused, operation]
  exact decide_eq_true refused

/-- An evaluation returns a value if the unbounded one does and no operation is refused. -/
theorem Agrees.ok_iff (agrees : Agrees f x y) (injective : Function.Injective f) {a : α}
    {throws : Nat} :
    x = .ok (a, throws) ↔ y.2 = .ok (f a, throws) ∧ ∀ e ∈ y.1, e.isRefused = false := by
  cases agrees with
  | @value events b throws' clean =>
      have accepted : ∀ e ∈ events, e.isRefused = false := fun e he => (clean e he).1
      simp only [Except.ok.injEq, Prod.mk.injEq, injective.eq_iff, and_iff_left accepted]
  | failure clean other => simp only [reduceCtorEq, false_and]
  | @overflow before after e o result clean operation refused operands =>
      simp only [reduceCtorEq, false_iff, not_and, not_forall, Bool.not_eq_false]
      intro _
      exact ⟨e, by simp, Event.isRefused_of_operation operation refused⟩

/-- All values that are found before an operation is refused are in range. -/
theorem Agrees.inRange_before (agrees : Agrees f x y) :
    ∀ e ∈ y.1.takeWhile (!·.isRefused), e.value.InRange := by
  cases agrees with
  | value clean => exact fun e he => (clean e (List.takeWhile_subset _ he)).2
  | failure clean other => exact fun e he => (clean e (List.takeWhile_subset _ he)).2
  | @overflow before after e o result clean operation refused operands =>
      have stop : (before ++ e :: after).takeWhile (!·.isRefused) = before := by
        rw [List.takeWhile_append_of_pos fun e he => by simp [(clean e he).1],
          List.takeWhile_cons_of_neg (by simp [Event.isRefused_of_operation operation refused]),
          List.append_nil]
      rw [stop]
      exact fun e he => (clean e he).2

/-- An evaluation overflows at the first operation that is refused. -/
theorem Agrees.overflow_iff (agrees : Agrees f x y) {loc : Location} {symbol : String} :
    x = .error ⟨loc, .overflow symbol⟩ ↔ ∃ e o, y.1.find? Event.isRefused = some e ∧ e.loc = loc ∧
      e.operation? = some o ∧ o.symbol = symbol ∧ (∀ a ∈ o.operands, Integer.InRange a) ∧
      o.Refused := by
  have never {events : List Event} (clean : ∀ e ∈ events, e.Clean) :
      events.find? Event.isRefused = none :=
    List.find?_eq_none.2 fun e he => by simp [(clean e he).1]
  cases agrees with
  | value clean => simp only [reduceCtorEq, never clean, false_and, exists_false]
  | @failure events loc' what clean other =>
      simp only [never clean, reduceCtorEq, false_and, exists_false, iff_false]
      intro same
      cases same
      cases other
  | @overflow before after e o result clean operation refused operands =>
      have first : (before ++ e :: after).find? Event.isRefused = some e := by
        rw [List.find?_append, never clean, Option.none_or,
          List.find?_cons_of_pos (Event.isRefused_of_operation operation refused)]
      simp only [first, Except.error.injEq, Located.mk.injEq, RuntimeError.overflow.injEq,
        Option.some.injEq]
      constructor
      · rintro ⟨rfl, rfl⟩
        exact ⟨e, o, rfl, rfl, operation, rfl, operands, refused⟩
      · rintro ⟨_, o', rfl, same, operation', sign, -, -⟩
        obtain rfl := Option.some.inj (operation.symm.trans operation')
        exact ⟨same, sign⟩

/-- A failure for another reason is also one of the unbounded evaluation, and until then no
operation is refused. -/
theorem Agrees.error (agrees : Agrees f x y) {failure : Failure} (h : x = .error failure)
    (other : ∀ symbol, failure.what ≠ .overflow symbol) :
    y.2 = .error failure.notice ∧ ∀ e ∈ y.1, e.isRefused = false := by
  cases agrees with
  | value clean => cases h
  | failure clean _ =>
      cases h
      exact ⟨rfl, fun e he => (clean e he).1⟩
  | overflow clean operation refused operands =>
      cases h
      exact absurd rfl (other _)

end Agrees

/-- Whatever the dice show, two computations agree. -/
def Tracks {α β : Type} (f : α → β) (x : PenScript.Eval α) (y : Eval β) : Prop :=
  ∀ throws, Agrees f (x throws) (y throws)

namespace Tracks

variable {α β γ δ : Type} {f : α → β} {g : γ → δ}

/-- Values track their images. -/
theorem pure (a : α) : Tracks f (Pure.pure a) (Pure.pure (f a)) :=
  fun _ => .value (List.forall_mem_nil _)

/-- Failures that are no overflow track each other. -/
theorem fail {loc : Location} {what : RuntimeError} {message : String}
    (other : what.isOverflow = false) (same : what.message = message) :
    Tracks f (PenScript.Eval.fail loc what) (Eval.fail loc message) := by
  subst same
  exact fun _ => .failure (List.forall_mem_nil _) other

/-- The value of a node tracks its event. -/
theorem node (loc : Location) (v : PenScript.Value) :
    Tracks Value.unbounded (Pure.pure v) (Eval.node loc v.unbounded) :=
  fun _ => .value (List.forall_mem_singleton.2 ⟨rfl, v.unbounded_inRange⟩)

/-- Computations that track each other may follow one another. -/
theorem bind {x : PenScript.Eval α} {y : Eval β} {next : α → PenScript.Eval γ} {next' : β → Eval δ}
    (first : Tracks f x y) (later : ∀ a, Tracks g (next a) (next' (f a))) :
    Tracks g (x >>= next) (y >>= next') := by
  intro throws
  have now := first throws
  change Agrees g (StateT.bind x next throws) _
  unfold StateT.bind
  cases hx : x throws with
  | error failure =>
      rw [hx] at now
      generalize hy : y throws = ending at now
      cases now with
      | failure clean other =>
          rw [Eval.bind_of_error hy]
          exact .failure clean other
      | @overflow before after e o result clean operation refused operands =>
          -- it does not matter how the unbounded computation goes on
          cases result with
          | error notice =>
              rw [Eval.bind_of_error hy]
              exact .overflow clean operation refused operands
          | ok r =>
              rw [Eval.bind_of_ok hy, List.append_assoc]
              exact .overflow clean operation refused operands
  | ok r =>
      rw [hx] at now
      generalize hy : y throws = ending at now
      cases now with
      | value clean =>
          rw [Eval.bind_of_ok hy]
          exact (later _ _).append clean

end Tracks

/-! ### Operations -/

/-- A remainder is refused where the quotient is, though it is always in range. -/
theorem Operation.mod?_eq_some_iff {a b : Integer} (nonzero : b.val ≠ 0) (n : Integer) :
    a.mod? b = some n ↔ ¬(mod a.val b.val).Refused ∧ n.val = (mod a.val b.val).result := by
  have inside : Integer.InRange (mod a.val b.val).result := Integer.tmod_inRange a.val nonzero
  have refused : (mod a.val b.val).Refused ↔ ¬Integer.InRange (a.val.tdiv b.val) := by
    rw [Integer.tdiv_inRange_iff nonzero, not_not, Refused, mod.injEq,
      or_iff_right (not_not.2 inside)]
  rw [refused, not_not, Integer.mod?, Integer.div?]
  constructor
  · intro found
    obtain ⟨q, quotient, remainder⟩ := Option.bind_eq_some_iff.1 found
    rw [Integer.ofInt?_eq_some_iff] at quotient remainder
    exact ⟨quotient ▸ q.inRange, remainder⟩
  · rintro ⟨quotient, remainder⟩
    obtain ⟨q, hq⟩ := Integer.exists_of_inRange quotient
    rw [← hq, Integer.ofInt?_val]
    exact Integer.ofInt?_eq_some_iff.2 remainder

/-- A checked operation tracks the unbounded one. -/
theorem Tracks.exact (loc : Location) (o : Operation) {n? : Option Integer}
    (operands : ∀ a ∈ o.operands, Integer.InRange a)
    (checked : ∀ n, n? = some n ↔ ¬o.Refused ∧ n.val = o.result) :
    Tracks Value.unbounded (PenScript.Eval.exact loc o.symbol n?) (Eval.compute loc o) := by
  intro throws
  cases n? with
  | some n =>
      obtain ⟨accepted, same⟩ := (checked n).1 rfl
      have clean : Event.Clean ⟨loc, .int o.result, some o⟩ :=
        ⟨decide_eq_false accepted, show Integer.InRange o.result from same ▸ n.inRange⟩
      rw [Eval.compute]
      rw [← same] at clean ⊢
      exact Agrees.value (List.forall_mem_singleton.2 clean)
  | none =>
      have refused : o.Refused := by
        by_contra accepted
        have inside : Integer.InRange o.result := not_not.1 (not_or.1 accepted).1
        obtain ⟨n, same⟩ := Integer.exists_of_inRange inside
        cases (checked n).2 ⟨accepted, same⟩
      have operation : (Event.mk loc (.int o.result) (some o)).operation? = some o := rfl
      exact Agrees.overflow (List.forall_mem_nil _) operation refused operands

/-- An operation other than a remainder is checked by the range of its result. -/
theorem Tracks.compute (loc : Location) (o : Operation)
    (operands : ∀ a ∈ o.operands, Integer.InRange a)
    (other : o.isMod = false) :
    Tracks Value.unbounded (PenScript.Eval.exact loc o.symbol (Integer.ofInt? o.result))
      (Eval.compute loc o) := by
  refine Tracks.exact loc o operands fun n => ?_
  rw [Integer.ofInt?_eq_some_iff]
  refine ⟨fun same => ⟨?_, same⟩, And.right⟩
  rintro (outside | remainder)
  · exact outside (same ▸ n.inRange)
  · cases remainder
    cases other

/-! ### Readings -/

namespace Tracks

/-- Reading an integer tracks. -/
theorem integer (loc : Location) (role : Role) (v : PenScript.Value) :
    Tracks Integer.val (PenScript.Eval.integer loc role v) (Eval.integer loc role v.unbounded) := by
  rw [PenScript.Eval.integer, Eval.integer, Value.asInt?_unbounded]
  cases v.asInt? with
  | some n => exact pure n
  | none => exact fail rfl rfl

/-- Reading a boolean tracks. -/
theorem truth (loc : Location) (role : Role) (v : PenScript.Value) :
    Tracks id (PenScript.Eval.truth loc role v) (Eval.truth loc role v.unbounded) := by
  rw [PenScript.Eval.truth, Eval.truth, Value.asBool?_unbounded]
  cases v.asBool? with
  | some b => exact pure b
  | none => exact fail rfl rfl

/-- Reading a string tracks. -/
theorem string (loc : Location) (role : Role) (v : PenScript.Value) :
    Tracks id (PenScript.Eval.string loc role v) (Eval.string loc role v.unbounded) := by
  rw [PenScript.Eval.string, Eval.string, Value.asStr?_unbounded]
  cases v.asStr? with
  | some s => exact pure s
  | none => exact fail rfl rfl

/-- Reading a color tracks. -/
theorem color (loc : Location) (s : String) :
    Tracks id (PenScript.Eval.color loc s) (Eval.color loc s) := by
  rw [PenScript.Eval.color, Eval.color]
  cases Color.parse? s with
  | some c => exact pure c
  | none => exact fail rfl rfl

end Tracks

end Unbounded

open Unbounded

/-! ### Operators -/

/-- Repeating a text tracks. -/
theorem tracks_repeatText (loc : Location) (s : String) (n : Integer) :
    Tracks Value.unbounded (repeatText loc s n) (repeatUnbounded loc s n.val) := by
  rw [repeatText, repeatUnbounded]
  split
  · exact Tracks.fail rfl rfl
  · split
    · exact Tracks.node loc (.str _)
    · exact Tracks.fail rfl rfl

namespace BinaryOp

/-- The operators on values of all types track the unbounded ones. -/
theorem tracks_applyValues (op : BinaryOp) (loc rhsLoc : Location) (v w : Value) :
    Tracks Value.unbounded (op.applyValues loc rhsLoc v w)
      (op.applyUnbounded loc rhsLoc v.unbounded w.unbounded) := by
  cases op with
  | add =>
      rw [applyValues, applyUnbounded, Value.asInt?_unbounded, Value.asInt?_unbounded,
        Value.text_unbounded, Value.text_unbounded]
      cases v.asInt? with
      | none => exact Tracks.node loc (.str _)
      | some a =>
          cases w.asInt? with
          | none => exact Tracks.node loc (.str _)
          | some b =>
              exact Tracks.compute loc (.add a.val b.val) (Integer.pair_inRange a b) rfl
  | mul =>
      have product (v w : Value) : Tracks Value.unbounded
          (do
            let a ← Eval.integer loc (.left mul) v
            let b ← Eval.integer rhsLoc (.right mul) w
            Eval.exact loc mul.symbol (a.mul? b))
          (do
            let a ← Unbounded.Eval.integer loc (.left mul) v.unbounded
            let b ← Unbounded.Eval.integer rhsLoc (.right mul) w.unbounded
            Unbounded.Eval.compute loc (.mul a b)) := by
        refine (Tracks.integer loc _ v).bind fun a => (Tracks.integer rhsLoc _ w).bind fun b => ?_
        exact Tracks.compute loc (.mul a.val b.val) (Integer.pair_inRange a b) rfl
      cases v with
      | str s =>
          cases w with
          | str t => exact Tracks.fail rfl rfl
          | int _ | bool _ =>
              exact (Tracks.integer rhsLoc _ _).bind fun n => tracks_repeatText loc s n
      | int _ | bool _ =>
          cases w with
          | str t => exact (Tracks.integer loc _ _).bind fun n => tracks_repeatText loc t n
          | int _ | bool _ => exact product _ _
  | _ =>
      simp only [applyValues, applyUnbounded, Value.type_unbounded, Value.same_unbounded]
      split
      · exact Tracks.node loc (.bool _)
      · exact Tracks.fail rfl rfl

/-- The operators on integers track the unbounded ones. -/
theorem tracks_applyIntegers (op : BinaryOp) (loc rhsLoc : Location) (a b : Integer) :
    Tracks Value.unbounded (op.applyIntegers loc rhsLoc a b)
      (op.calculateUnbounded loc rhsLoc a.val b.val) := by
  have both := Integer.pair_inRange a b
  cases op with
  | sub => exact Tracks.compute loc (.sub a.val b.val) both rfl
  | div =>
      rw [applyIntegers, calculateUnbounded]
      split
      · exact Tracks.fail rfl rfl
      · exact Tracks.compute loc (.div a.val b.val) both rfl
  | mod =>
      rw [applyIntegers, calculateUnbounded]
      split
      · exact Tracks.fail rfl rfl
      · next nonzero =>
        exact Tracks.exact loc (.mod a.val b.val) both (Operation.mod?_eq_some_iff nonzero)
  | pow =>
      rw [applyIntegers, calculateUnbounded]
      split
      · exact Tracks.fail rfl rfl
      · next nonneg =>
        rw [Integer.pow?_eq]
        rw [← Int.toNat_of_nonneg (not_lt.1 nonneg)] at both
        exact Tracks.compute loc (.pow a.val b.val.toNat) both rfl
  | _ => exact Tracks.node loc (.bool _)

end BinaryOp

/-! ### Built-in functions -/

namespace Query

variable (q : Query) (loc : Location)

/-- Reading an integer argument tracks. -/
theorem tracks_integerArg (i : Nat) (v : Value) :
    Tracks Integer.val (q.integerArg loc i v) (askUnbounded.integerArg q loc i v.unbounded) :=
  Tracks.integer loc _ v

/-- Reading a color argument tracks. -/
theorem tracks_colorArg (i : Nat) (v : Value) :
    Tracks id (q.colorArg loc i v) (askUnbounded.colorArg q loc i v.unbounded) :=
  (Tracks.string loc _ v).bind fun s => Tracks.color loc s

/-- A built-in function tracks the unbounded one. -/
theorem tracks_ask (s : Scene) (args : List Value) :
    Tracks Value.unbounded (q.ask s loc args)
      (q.askUnbounded s loc (args.map Value.unbounded)) := by
  have wrong : Tracks Value.unbounded (Eval.fail loc (.wrongArity q.name q.arity args.length))
      (Unbounded.Eval.fail loc (RuntimeError.wrongArity q.name q.arity
        (args.map Value.unbounded).length).message) :=
    Tracks.fail rfl (by rw [List.length_map])
  cases q with
  | actualX | actualY | canvasSize =>
      match args with
      | [] => exact Tracks.node loc (.int _)
      | _ :: _ => exact wrong
  | brushColor =>
      match args with
      | [] | _ :: _ :: _ => exact wrong
      | [c] => exact (tracks_colorArg _ loc 1 c).bind fun c => Tracks.node loc (.bool _)
  | brushSize =>
      match args with
      | [] | _ :: _ :: _ => exact wrong
      | [n] => exact (tracks_integerArg _ loc 1 n).bind fun n => Tracks.node loc (.bool _)
  | canvasColor =>
      match args with
      | [] | [_] | [_, _] | _ :: _ :: _ :: _ :: _ => exact wrong
      | [c, x, y] =>
          refine (tracks_colorArg _ loc 1 c).bind fun c => ?_
          refine (tracks_integerArg _ loc 2 x).bind fun x => ?_
          refine (tracks_integerArg _ loc 3 y).bind fun y => ?_
          exact Tracks.node loc (.bool _)
  | colorCount =>
      match args with
      | [] | [_] | [_, _] | [_, _, _] | [_, _, _, _] | _ :: _ :: _ :: _ :: _ :: _ :: _ =>
          exact wrong
      | [c, x, y, w, h] =>
          refine (tracks_colorArg _ loc 1 c).bind fun c => ?_
          refine (tracks_integerArg _ loc 2 x).bind fun x => ?_
          refine (tracks_integerArg _ loc 3 y).bind fun y => ?_
          refine (tracks_integerArg _ loc 4 w).bind fun w => ?_
          refine (tracks_integerArg _ loc 5 h).bind fun h => ?_
          exact Tracks.node loc (.int _)
  | randomInt =>
      match args with
      | [] | [_] | _ :: _ :: _ :: _ => exact wrong
      | [lo, hi] =>
          refine (tracks_integerArg _ loc 1 lo).bind fun lo => ?_
          refine (tracks_integerArg _ loc 2 hi).bind fun hi => ?_
          by_cases order : lo.val ≤ hi.val
          · rw [dif_pos order, if_pos order]
            intro throws
            exact Tracks.node loc (.int (lo.draw hi order (s.dice throws))) (throws + 1)
          · rw [dif_neg order, if_neg order]
            exact Tracks.fail rfl rfl

end Query

/-! ### Expressions -/

namespace Expr

variable {s : Scene}

/-- Evaluating a list of expressions tracks if each of them does. -/
theorem tracks_evalAll {es : List Expr}
    (each : ∀ e ∈ es, Tracks Value.unbounded (e.eval s) (e.evalUnbounded s)) :
    Tracks (List.map Value.unbounded) (evalAll s es) (evalAllUnbounded s es) := by
  induction es with
  | nil => exact Tracks.pure []
  | cons e es ih =>
      obtain ⟨first, rest⟩ := List.forall_mem_cons.1 each
      rw [evalAll, evalAllUnbounded]
      exact first.bind fun v => (ih rest).bind fun vs => Tracks.pure (v :: vs)

/-- A binary operation tracks if its operands do. -/
theorem tracks_binary {l : Location} {op : BinaryOp} {a b : Expr}
    (lhs : Tracks Value.unbounded (a.eval s) (a.evalUnbounded s))
    (rhs : Tracks Value.unbounded (b.eval s) (b.evalUnbounded s)) :
    Tracks Value.unbounded ((binary l op a b).eval s) ((binary l op a b).evalUnbounded s) := by
  cases op with
  | and | or =>
      rw [eval, evalUnbounded]
      refine lhs.bind fun v => (Tracks.truth a.loc _ v).bind fun x => ?_
      simp only [id]
      split
      · exact Tracks.node l (.bool x)
      · refine rhs.bind fun w => (Tracks.truth b.loc _ w).bind fun y => ?_
        exact Tracks.node l (.bool y)
  | add | mul | eq | ne =>
      rw [eval, evalUnbounded]
      refine lhs.bind fun v => rhs.bind fun w => ?_
      exact BinaryOp.tracks_applyValues _ l b.loc v w
  | _ =>
      simp only [eval, evalUnbounded]
      refine lhs.bind fun v => (Tracks.integer a.loc _ v).bind fun x => ?_
      refine rhs.bind fun w => (Tracks.integer b.loc _ w).bind fun y => ?_
      exact BinaryOp.tracks_applyIntegers _ l b.loc x y

/-- **Evaluation within 64 bits tracks the unbounded one.** -/
theorem tracks_eval (s : Scene) (e : Expr) :
    Tracks Value.unbounded (e.eval s) (e.evalUnbounded s) := by
  induction e using inductionOn with
  | lit l v => exact Tracks.node l v
  | var l x =>
      rw [eval, evalUnbounded]
      cases s.vars.get? x with
      | some v => exact Tracks.node l v
      | none => exact Tracks.fail rfl rfl
  | call l f args ih =>
      rw [eval, evalUnbounded]
      cases Query.ofName? f with
      | none => exact Tracks.fail rfl rfl
      | some q => exact (tracks_evalAll ih).bind fun vs => q.tracks_ask l s vs
  | group l e ih =>
      rw [eval, evalUnbounded, ← bind_pure (eval s e)]
      exact ih.bind fun v => Tracks.node l v
  | unary l op e ih =>
      cases op with
      | not =>
          rw [eval, evalUnbounded]
          refine ih.bind fun v => (Tracks.truth e.loc _ v).bind fun b => ?_
          exact Tracks.node l (.bool !b)
      | neg =>
          rw [eval, evalUnbounded]
          refine ih.bind fun v => (Tracks.integer e.loc _ v).bind fun n => ?_
          exact Tracks.compute l (.neg n.val) (List.forall_mem_singleton.2 n.inRange) rfl
  | binary l op a b iha ihb => exact tracks_binary iha ihb

/-- **Arithmetic is exact.** An expression has a value if it has the same one with unbounded
integers and no operation on the way is refused. All values that are found before an operation is
refused are in range. There is an overflow if an operation is refused, and it is the first one: its
operands are in range, and its exact result is not, or it is the remainder of the least integer by
minus one. Any other failure is one of the unbounded evaluation too. A power in particular is exact
or overflows, however large the exponent. -/
theorem arithmetic_is_exact (s : Scene) (e : Expr) (throws : Nat) :
    (∀ v throws', e.eval s throws = .ok (v, throws') ↔
      (e.evalUnbounded s throws).2 = .ok (v.unbounded, throws') ∧
        ∀ event ∈ (e.evalUnbounded s throws).1, event.isRefused = false) ∧
    (∀ event ∈ (e.evalUnbounded s throws).1.takeWhile (!·.isRefused), event.value.InRange) ∧
    (∀ loc symbol, e.eval s throws = .error ⟨loc, .overflow symbol⟩ ↔
      ∃ event o, (e.evalUnbounded s throws).1.find? Event.isRefused = some event ∧
        event.loc = loc ∧ event.operation? = some o ∧ o.symbol = symbol ∧
        (∀ a ∈ o.operands, Integer.InRange a) ∧
        (¬Integer.InRange o.result ∨ o = .mod (-9223372036854775808) (-1))) ∧
    (∀ failure, e.eval s throws = .error failure → (∀ symbol, failure.what ≠ .overflow symbol) →
      (e.evalUnbounded s throws).2 = .error failure.notice ∧
        ∀ event ∈ (e.evalUnbounded s throws).1, event.isRefused = false) ∧
    ∀ (loc rhsLoc : Location) (a b : Integer), 0 ≤ b.val →
      BinaryOp.pow.applyIntegers loc rhsLoc a b throws =
        if inside : Integer.InRange (a.val ^ b.val.toNat) then
          .ok (.int ⟨a.val ^ b.val.toNat, inside.1, inside.2⟩, throws)
        else .error ⟨loc, .overflow "**"⟩ := by
  have agrees := tracks_eval s e throws
  refine ⟨fun v throws' => agrees.ok_iff Value.unbounded_injective, agrees.inRange_before,
    fun loc symbol => agrees.overflow_iff, fun failure => agrees.error,
    fun loc rhsLoc a b nonneg => ?_⟩
  rw [BinaryOp.applyIntegers, if_neg (not_lt.2 nonneg), Integer.pow?_eq]
  split
  · next inside =>
    rw [Integer.ofInt?_eq_some_iff.2 (show Integer.val ⟨_, inside.1, inside.2⟩ = _ from rfl)]
    rfl
  · next outside =>
    rw [Integer.ofInt?_of_not_inRange outside]
    rfl

/-- The source `(1 or 9 ** 99) + m % -1 + 1 / 0`, where `m` is the least integer. -/
def refusals : Expr :=
  .binary ⟨1, 1⟩ .add
    (.binary ⟨1, 1⟩ .add
      (.group ⟨1, 1⟩ (.binary ⟨1, 2⟩ .or (.lit ⟨1, 2⟩ (.int .one))
        (.binary ⟨1, 7⟩ .pow (.lit ⟨1, 7⟩ (.int ⟨9, by decide, by decide⟩))
          (.lit ⟨1, 12⟩ (.int ⟨99, by decide, by decide⟩)))))
      (.binary ⟨1, 18⟩ .mod (.var ⟨1, 18⟩ "m")
        (.lit ⟨1, 22⟩ (.int ⟨-1, by decide, by decide⟩))))
    (.binary ⟨1, 27⟩ .div (.lit ⟨1, 27⟩ (.int .one)) (.lit ⟨1, 31⟩ (.int .zero)))

/-- A scene in which `m` is the least integer. -/
def leastScene : Scene where
  canvas := .blank 1 1
  pen := {}
  vars := Table.empty.insert "m" (.int ⟨-9223372036854775808, by decide, by decide⟩)
  dice _ := 0

/-- The power is left out and does not overflow, the remainder does, and the division is not
reached. -/
theorem remainder_is_refused_first :
    refusals.eval leastScene 0 = .error ⟨⟨1, 18⟩, .overflow "%"⟩ ∧
      BinaryOp.pow.applyIntegers ⟨1, 1⟩ ⟨1, 6⟩ ⟨-3, by decide, by decide⟩
        ⟨4294967296, by decide, by decide⟩ 0 = .error ⟨⟨1, 1⟩, .overflow "**"⟩ := by
  obtain ⟨-, -, overflow, -, power⟩ := arithmetic_is_exact leastScene refusals 0
  have refused : (refusals.evalUnbounded leastScene 0).1.find? Event.isRefused =
      some ⟨⟨1, 18⟩, .int 0, some (.mod (-9223372036854775808) (-1))⟩ := by
    rfl
  refine ⟨(overflow _ _).2 ⟨_, _, refused, rfl, rfl, rfl, by decide, .inr rfl⟩, ?_⟩
  rw [power _ _ _ _ (by decide), dif_neg (Integer.pow_not_inRange (by decide) (by decide))]

end Expr

end PenScript
