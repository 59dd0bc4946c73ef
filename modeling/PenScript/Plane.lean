import PenScript.Value

/-!
# The plane of pixels

A `Point` is a place in the plane of pixels: columns grow to the right and rows grow downward. The
plane has no bounds, but the numbers of a drawing do; which points a computation can work with is
said by `Point.InRange` and `Point.HasRoom`.

A `Span` is a run of whole numbers from `first` up to, but without, `stop`. Two of them make a grid
of points, which is listed row by row. A `Heading` is one of the eight directions in which the pen
moves, or none: each of its components is -1, 0 or 1.

## Main definitions

* `Point.inRange?` — points that were computed, if none of them is out of range;
* `Span.grid` — the points of some columns and rows, row by row;
* `Heading.stepsFrom` — the point some steps away.

## Main results

* `Span.mem_toList`, `Span.mem_grid` — exactly the members are listed.
-/

namespace PenScript

/-! ### Points and spans -/

/-- A pixel of the unbounded plane. -/
structure Point where
  x : Int
  y : Int
deriving DecidableEq, Repr

namespace Point

/-- Both coordinates are in the range of integers. -/
def InRange (p : Point) : Prop :=
  Integer.InRange p.x ∧ Integer.InRange p.y

instance (p : Point) : Decidable p.InRange :=
  inferInstanceAs (Decidable (_ ∧ _))

/-- Everything that is at most `n` columns and rows away has coordinates in range. -/
def HasRoom (p : Point) (n : Int) : Prop :=
  Integer.HasRoom p.x n ∧ Integer.HasRoom p.y n

instance (p : Point) (n : Int) : Decidable (p.HasRoom n) :=
  inferInstanceAs (Decidable (_ ∧ _))

/-- The points themselves, if all of them are in range. -/
def inRange? (ps : List Point) : Option (List Point) :=
  if ∀ p ∈ ps, p.InRange then some ps else none

end Point

/-- The whole numbers from `first` up to, but without, `stop`. -/
structure Span where
  first : Int
  stop : Int
deriving DecidableEq, Repr

namespace Span

/-- A number is in a span if it lies between its ends. -/
instance : Membership Int Span where
  mem s i := s.first ≤ i ∧ i < s.stop

instance (s : Span) (i : Int) : Decidable (i ∈ s) :=
  inferInstanceAs (Decidable (s.first ≤ i ∧ i < s.stop))

/-- Membership spelled out. -/
theorem mem_def {s : Span} {i : Int} : i ∈ s ↔ s.first ≤ i ∧ i < s.stop := Iff.rfl

/-- The span without members. -/
def empty : Span := ⟨0, 0⟩

/-- The members in increasing order. -/
def toList (s : Span) : List Int :=
  (List.range (s.stop - s.first).toNat).map fun (i : Nat) => s.first + i

/-- The common members. -/
def inter (s t : Span) : Span :=
  ⟨max s.first t.first, min s.stop t.stop⟩

/-- The members between zero and `extent`, the end not included. -/
def clip (s : Span) (extent : Nat) : Span :=
  s.inter ⟨0, extent⟩

/-- The members of `around` are those at most `half` away from `center`. -/
def around (center : Int) (half : Nat) : Span :=
  ⟨center - half, center + half + 1⟩

/-- The points with a column of `xs` and a row of `ys`, row by row. -/
def grid (xs ys : Span) : List Point :=
  ys.toList.flatMap fun y => xs.toList.map fun x => ⟨x, y⟩

/-- Exactly the members are listed. -/
@[simp] theorem mem_toList {s : Span} {i : Int} : i ∈ s.toList ↔ i ∈ s := by
  simp only [toList, List.mem_map, List.mem_range, mem_def]
  constructor
  · rintro ⟨k, hk, rfl⟩
    omega
  · intro h
    exact ⟨(i - s.first).toNat, by omega, by omega⟩

/-- The members of an intersection are in both spans. -/
@[simp] theorem mem_inter {s t : Span} {i : Int} : i ∈ s.inter t ↔ i ∈ s ∧ i ∈ t := by
  simp only [inter, mem_def]
  omega

/-- What is left of a span between zero and `extent`. -/
@[simp] theorem mem_clip {s : Span} {extent : Nat} {i : Int} :
    i ∈ s.clip extent ↔ i ∈ s ∧ 0 ≤ i ∧ i < extent := by
  rw [clip, mem_inter]
  rfl

/-- A grid lists the points whose column and row are in the two spans. -/
@[simp] theorem mem_grid {xs ys : Span} {p : Point} : p ∈ grid xs ys ↔ p.x ∈ xs ∧ p.y ∈ ys := by
  rcases p with ⟨x, y⟩
  simp only [grid, List.mem_flatMap, List.mem_map, mem_toList, Point.mk.injEq]
  constructor
  · rintro ⟨b, hb, a, ha, rfl, rfl⟩
    exact ⟨ha, hb⟩
  · rintro ⟨ha, hb⟩
    exact ⟨y, hb, x, ha, rfl, rfl⟩

end Span

/-! ### Headings -/

/-- One component of a heading. -/
inductive Sign where
  | neg
  | zero
  | pos
deriving DecidableEq, Repr

namespace Sign

/-- The number of a sign. -/
def toInt : Sign → Int
  | neg => -1
  | zero => 0
  | pos => 1

/-- The sign of a number, if it is -1, 0 or 1. -/
def ofInt? (z : Int) : Option Sign :=
  if z = -1 then some neg else if z = 0 then some zero else if z = 1 then some pos else none

/-- A sign is found for its own number. -/
theorem ofInt?_eq_some_iff {z : Int} {s : Sign} : ofInt? z = some s ↔ s.toInt = z := by
  constructor
  · intro h
    unfold ofInt? at h
    split at h
    · next hz => cases h; exact hz.symm
    · split at h
      · next hz => cases h; exact hz.symm
      · split at h
        · next hz => cases h; exact hz.symm
        · cases h
  · rintro rfl
    cases s <;> rfl

/-- The numbers without a sign are those beyond -1 and 1. -/
theorem ofInt?_eq_none_iff {z : Int} : ofInt? z = none ↔ ¬(-1 ≤ z ∧ z ≤ 1) := by
  unfold ofInt?
  split
  · simp_all
  · split
    · simp_all
    · split
      · simp_all
      · simp_all
        omega

end Sign

/-- A direction of the plane. -/
structure Heading where
  dx : Sign
  dy : Sign
deriving DecidableEq, Repr

namespace Heading

/-- The heading that leads nowhere. -/
def none : Heading := ⟨.zero, .zero⟩

/-- The point that is `n` steps away from `p`. -/
def stepsFrom (h : Heading) (p : Point) (n : Int) : Point :=
  ⟨p.x + h.dx.toInt * n, p.y + h.dy.toInt * n⟩

end Heading

end PenScript
