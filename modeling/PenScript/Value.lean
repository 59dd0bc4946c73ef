/-!
# Integers, values and tables

The numbers of the language are the integers between `-2^63` and `2^63 - 1`. An `Integer` carries
its exact value together with the proof that it is in range, so every operation is the exact one
on `Int` followed by `Integer.ofInt?`, which refuses a result out of range. Nothing wraps.

The language has two types: strings, and one type for integers and booleans, which convert into
each other freely. A value remembers whether it was made as an integer or as a boolean, because
its text shows it, but the two compare by their integer reading.

A `Table` is a finite map from names, kept as a list of pairs with at most one pair a name:
programs have few variables and labels. Other definitions see it only through `Table.get?`.

## Main definitions

* `Integer.InRange` — what the range of integers is;
* `Integer.ofInt?` — the integer of a given value, if it is in range;
* `Integer.HasRoom` — whether the numbers around a given one are in range;
* `Integer.saturate` — the value of the range that is nearest to a given one;
* `Integer.neg?`, `add?`, `sub?`, `mul?`, `div?`, `mod?`, `pow?` — exact or refused;
* `Value.asInt?`, `Value.asBool?`, `Value.asStr?` — the readings of a value.

## Main results

* `Table.get?_insert` — an insertion is seen at its own name and nowhere else.
-/

namespace PenScript

/-! ### Integers -/

/-- The range of integers: the numbers between `-2^63` and `2^63 - 1`. -/
def Integer.InRange (z : Int) : Prop :=
  -9223372036854775808 ≤ z ∧ z ≤ 9223372036854775807

instance (z : Int) : Decidable (Integer.InRange z) :=
  inferInstanceAs (Decidable (_ ∧ _))

/-- A number of the range. -/
structure Integer where
  val : Int
  lo_le : -9223372036854775808 ≤ val := by decide
  le_hi : val ≤ 9223372036854775807 := by decide
deriving DecidableEq, Repr

namespace Integer

/-- The integer of value `z`, if `z` is in range. -/
def ofInt? (z : Int) : Option Integer :=
  if h : InRange z then some ⟨z, h.1, h.2⟩ else none

/-- The integer of the range that is nearest to `z`. -/
def saturate (z : Int) : Integer where
  val := max (-9223372036854775808) (min z 9223372036854775807)
  lo_le := by omega
  le_hi := by omega

/-- Going `n` up and down from `z` stays in range. Going nowhere always does. -/
def HasRoom (z n : Int) : Prop :=
  n = 0 ∨ InRange (z - n) ∧ InRange (z + n)

instance (z n : Int) : Decidable (HasRoom z n) :=
  inferInstanceAs (Decidable (_ ∨ _))

/-- Zero. -/
def zero : Integer where
  val := 0

/-- One. -/
def one : Integer where
  val := 1

instance : Inhabited Integer := ⟨zero⟩

/-- Zero for `false` and one for `true`. -/
def ofBool (b : Bool) : Integer :=
  if b then one else zero

/-- The number that is drawn from `lo` to `hi` by the random bits `bits`. -/
def draw (lo hi : Integer) (h : lo.val ≤ hi.val) (bits : Nat) : Integer where
  val := lo.val + bits % (hi.val - lo.val + 1)
  lo_le := by
    have := Int.emod_nonneg bits (b := hi.val - lo.val + 1) (by omega)
    have := lo.lo_le
    omega
  le_hi := by
    have := Int.emod_lt_of_pos bits (b := hi.val - lo.val + 1) (by omega)
    have := hi.le_hi
    omega

/-- Decimal digits, behind a minus sign if the value is negative. -/
def text (a : Integer) : String :=
  toString a.val

/-! ### Exact arithmetic -/

/-- The negation, refused for the least integer. -/
def neg? (a : Integer) : Option Integer :=
  ofInt? (-a.val)

/-- The sum. -/
def add? (a b : Integer) : Option Integer :=
  ofInt? (a.val + b.val)

/-- The difference. -/
def sub? (a b : Integer) : Option Integer :=
  ofInt? (a.val - b.val)

/-- The product. -/
def mul? (a b : Integer) : Option Integer :=
  ofInt? (a.val * b.val)

/-- The quotient, rounded toward zero. -/
def div? (a b : Integer) : Option Integer :=
  ofInt? (a.val.tdiv b.val)

/-- The remainder that belongs to `div?`, refused where the quotient is. -/
def mod? (a b : Integer) : Option Integer :=
  (a.div? b).bind fun _ => ofInt? (a.val.tmod b.val)

/-- The power. From exponent 64 on only the bases `-1`, `0` and `1` have one in range, and their
powers follow the parity of the exponent, so no large power is ever computed. -/
def pow? (a : Integer) (e : Nat) : Option Integer :=
  if e < 64 then ofInt? (a.val.pow e)
  else if a.val = 0 ∨ a.val = 1 then some a
  else if a.val = -1 then ofInt? (a.val.pow (e % 2))
  else none

/-- The value of an integer is in range. -/
theorem inRange (a : Integer) : InRange a.val :=
  ⟨a.lo_le, a.le_hi⟩

/-- An integer is found for its own value and for no other number. -/
theorem ofInt?_eq_some_iff {z : Int} {a : Integer} : ofInt? z = some a ↔ a.val = z := by
  rcases a with ⟨v, h₁, h₂⟩
  unfold ofInt?
  split
  · next inside => simp [eq_comm]
  · next outside =>
    simp only [reduceCtorEq, false_iff]
    rintro rfl
    exact outside ⟨h₁, h₂⟩

/-- Every integer is found again by its value. -/
theorem ofInt?_val (a : Integer) : ofInt? a.val = some a :=
  ofInt?_eq_some_iff.2 rfl

end Integer

/-! ### Values -/

/-- The types of the language. -/
inductive Ty where
  | intOrBool
  | str
deriving DecidableEq, Repr

/-- The name of a type. -/
def Ty.text : Ty → String
  | intOrBool => "IntOrBool"
  | str => "String"

/-- What an expression evaluates to. -/
inductive Value where
  | int (n : Integer)
  | bool (b : Bool)
  | str (s : String)
deriving DecidableEq, Repr

namespace Value

/-- The type of a value. -/
def type : Value → Ty
  | int _ | bool _ => .intOrBool
  | str _ => .str

/-- The integer reading: `false` is zero and `true` is one. Strings have none. -/
def asInt? : Value → Option Integer
  | int n => some n
  | bool b => some (.ofBool b)
  | str _ => none

/-- The boolean reading: an integer is true unless it is zero. Strings have none. -/
def asBool? : Value → Option Bool
  | int n => some (n.val != 0)
  | bool b => some b
  | str _ => none

/-- The string itself. Integers and booleans have none. -/
def asStr? : Value → Option String
  | str s => some s
  | _ => none

/-- Whether two values are equal: by integer reading, or as strings. -/
def same (v w : Value) : Bool :=
  v.asInt? = w.asInt? && v.asStr? = w.asStr?

/-- The text that joining a value to a string inserts. -/
def text : Value → String
  | int n => n.text
  | bool b => if b then "true" else "false"
  | str s => s

end Value

/-! ### Tables -/

/-- A finite map from names to `α`. -/
structure Table (α : Type) where
  entries : List (String × α) := []
deriving Repr

namespace Table

variable {α : Type}

/-- The table without entries. -/
def empty : Table α := {}

/-- What a name is bound to. -/
def get? (t : Table α) (name : String) : Option α :=
  t.entries.lookup name

/-- Binds a name, in place of what it was bound to. -/
def insert (t : Table α) (name : String) (a : α) : Table α :=
  ⟨(name, a) :: t.entries.filter fun e => e.1 ≠ name⟩

/-- Nothing is bound in the empty table. -/
@[simp] theorem get?_empty (name : String) : (empty : Table α).get? name = none := rfl

/-- Entries of another name are not looked at. -/
private theorem lookup_filter_ne (entries : List (String × α)) {name other : String}
    (h : other ≠ name) :
    (entries.filter fun e => e.1 ≠ name).lookup other = entries.lookup other := by
  induction entries with
  | nil => rfl
  | cons e es ih =>
    obtain ⟨k, a⟩ := e
    by_cases hk : k = name
    · subst hk
      simp only [List.lookup_cons, beq_eq_false_iff_ne.2 h, ← ih]
      simp
    · simp only [ne_eq, hk, not_false_eq_true, decide_true, List.filter_cons_of_pos,
        List.lookup_cons]
      split <;> simp_all

/-- An insertion is seen at its own name and nowhere else. -/
theorem get?_insert (t : Table α) (name other : String) (a : α) :
    (t.insert name a).get? other = if other = name then some a else t.get? other := by
  by_cases h : other = name
  · simp [insert, get?, h]
  · simp only [insert, get?, List.lookup_cons, beq_eq_false_iff_ne.2 h, if_neg h]
    exact lookup_filter_ne t.entries h

end Table

end PenScript
