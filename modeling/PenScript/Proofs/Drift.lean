import Mathlib.Tactic.Linarith
import Mathlib.Tactic.Ring
import PenScript.Proofs.Enclosure

/-!
# The drift of the walk along a circle

In every column the outline of a circle should take the row that is nearest to the circle. To know
whether the walk has to go down it looks at the point halfway between two rows: if that is beyond
the circle then the lower row is the nearer one. The decision variable is meant to be twice the
square by which this point is beyond the circle. It is kept up to date by adding, and what is added
is computed from the column and the row behind the step instead of those in front of it. So every
column adds four too much, and every row as well.

What follows from it is said here. The walk never goes down too late, and at most two rows too
early. Every row of a circle is a nearest one if the radius is four or less, and for no larger
radius: on the last part of its way the walk would have to go down in every column, which a circle
does not.

## Main definitions

* `Circle.excess` — by how much the point halfway to the row below is beyond the circle;
* `Circle.Nearest` — the row is nearest to the circle in its column.

## Main results

* `Circle.Stage.drifts`: the decision variable at all stages, and where the walk passes;
* `Circle.radius_le_of_nearest`: an outline of nearest rows is small;
* `Circle.outlines_drift`: how far the rows of an outline are from the circle.
-/

namespace PenScript.Circle

/-! ### Halfway between two rows -/

/-- By how much the point halfway between row `y` and row `y - 1` of column `x` is beyond the circle
of radius `r`: its square distance from the center, less the square of the radius and less a
quarter. -/
def excess (r x y : Int) : Int :=
  x * x + y * (y - 1) - r * r

/-- The row `y` is nearest to the circle of radius `r` in column `x`: it differs from the square
root of `r * r - x * x` by at most one half. -/
def Nearest (r x y : Int) : Prop :=
  (2 * y - 1) ^ 2 ≤ 4 * (r * r - x * x) ∧ 4 * (r * r - x * x) ≤ (2 * y + 1) ^ 2

instance (r x y : Int) : Decidable (Nearest r x y) :=
  inferInstanceAs (Decidable (_ ∧ _))

/-- The row is not too high if the point halfway to the row below is not beyond the circle. -/
theorem square_le_iff {r x y : Int} :
    (2 * y - 1) ^ 2 ≤ 4 * (r * r - x * x) ↔ excess r x y < 0 := by
  have expand : (2 * y - 1) ^ 2 - 4 * (r * r - x * x) = 4 * excess r x y + 1 := by
    rw [excess]
    ring
  omega

/-- The row is not too low if the point halfway to the row above is beyond the circle. -/
theorem le_square_iff {r x y : Int} :
    4 * (r * r - x * x) ≤ (2 * y + 1) ^ 2 ↔ 0 ≤ excess r x (y + 1) := by
  have expand : (2 * y + 1) ^ 2 - 4 * (r * r - x * x) = 4 * excess r x (y + 1) + 1 := by
    rw [excess]
    ring
  omega

/-- A row is nearest exactly if the point halfway to the row above is beyond the circle and the one
halfway to the row below is not. -/
theorem nearest_iff {r x y : Int} :
    Nearest r x y ↔ excess r x y < 0 ∧ 0 ≤ excess r x (y + 1) := by
  rw [Nearest, square_le_iff, le_square_iff]

/-- One column further, the same two rows. -/
theorem excess_column (r x y : Int) : excess r (x + 1) y = excess r x y + 2 * x + 1 := by
  rw [excess, excess]
  ring

/-- One row further up, in the same column. -/
theorem excess_row (r x y : Int) : excess r x (y + 1) = excess r x y + 2 * y := by
  rw [excess, excess]
  ring

/-! ### What the walk keeps -/

namespace Stage

/-- Where a stage of the walk is. The decision variable is too large by four for every column and
every row behind the walk. The walk has not passed too far above the circle, and too far below it
only as far as the decision variable drifts. -/
structure Drifts (r : Int) (s : Stage) : Prop where
  decision : s.d = 2 * excess r (s.x + 1) s.y + 1 + 4 * (s.x + (r - s.y))
  below : s.x ≤ s.y → excess r s.x s.y < 0
  above : 1 ≤ excess r s.x (s.y + 1) + 2 * (s.x + (r - s.y))

variable {r : Int} {s : Stage}

/-- The walk starts on the circle. -/
theorem drifts_start (positive : 1 ≤ r) : (start r).Drifts r := by
  have corner : excess r 0 r = -r := by
    rw [excess]
    ring
  have right := excess_column r 0 r
  have up := excess_row r 0 r
  constructor
  · simp only [start]
    omega
  · simp only [start]
    omega
  · simp only [start]
    omega

/-- A step of the walk adds to the drift. -/
theorem Drifts.next (here : s.x ≤ s.y) (within : s.Within r) (drifts : s.Drifts r) :
    s.next.Drifts r := by
  obtain ⟨column, row, -, -⟩ := within
  obtain ⟨decision, below, above⟩ := drifts
  have below := below here
  have right := excess_column r s.x s.y
  have right₂ := excess_column r (s.x + 1) s.y
  rw [Stage.next]
  split
  · -- one row down: the place halfway is that of the row above, before
    have down (x : Int) := excess_row r x (s.y - 1)
    simp only [Int.sub_add_cancel] at down
    have down₁ := down (s.x + 1)
    have down₂ := down (s.x + 1 + 1)
    constructor
    · dsimp only
      omega
    · dsimp only
      omega
    · dsimp only
      rw [Int.sub_add_cancel]
      omega
  · have up := excess_row r s.x s.y
    have up₁ := excess_row r (s.x + 1) s.y
    constructor
    · dsimp only
      omega
    · dsimp only
      omega
    · dsimp only
      omega

/-- The start is a stage of the walk. -/
theorem start_mem_stages (positive : 0 ≤ r) : start r ∈ stages (.start r) := by
  rw [stages_of_le (s := start r) positive]
  exact List.mem_cons_self

/-- **The drift of the walk**, at all of its stages. -/
theorem drifts (positive : 1 ≤ r) :
    ∀ s ∈ stages (.start r), s.x ≤ s.y ∧ s.Within r ∧ s.Drifts r := by
  have nonneg : 0 ≤ r := by omega
  have within := (within_stages nonneg (start r) (start_mem_stages nonneg)).2
  refine stages_invariant (fun s here both => ?_) ⟨within, drifts_start positive⟩
  exact ⟨both.1.next here, both.2.next here both.1⟩

/-- A stage is at most two rows below the circle. -/
theorem Drifts.le_square (positive : 1 ≤ r) (here : s.x ≤ s.y) (within : s.Within r)
    (drifts : s.Drifts r) : 4 * (r * r - s.x * s.x) ≤ (2 * s.y + 4) ^ 2 := by
  have above := drifts.above
  have column := within.column
  rw [excess] at above
  -- the walk ends at the diagonal, so it does not get much below two thirds of the radius
  have high : 2 * r ≤ 3 * s.y + 5 := by
    by_contra low
    have square : s.x * s.x ≤ s.y * s.y := Int.mul_self_le_mul_self column here
    nlinarith
  nlinarith

end Stage

/-! ### Outlines of nearest rows -/

section Nearest

variable {r : Int} {s : Stage}

/-- The walk comes by every other diagonal. -/
theorem exists_stage_near_diagonal {t : Int} (positive : 1 ≤ t) (ahead : t ≤ s.y - s.x) :
    ∃ u ∈ stages s, t - 1 ≤ u.y - u.x ∧ u.y - u.x ≤ t := by
  induction s using stages.induct with
  | case1 s here ih =>
      rw [stages_of_le here]
      have right := s.next_x
      have down := s.next_y
      by_cases there : s.y - s.x ≤ t
      · exact ⟨s, List.mem_cons_self, by omega, there⟩
      · by_cases later : t ≤ s.next.y - s.next.x
        · obtain ⟨u, stage, near⟩ := ih later
          exact ⟨u, List.mem_cons_of_mem _ stage, near⟩
        · refine ⟨s.next, List.mem_cons_of_mem _ ?_, by omega, by omega⟩
          rw [stages_of_le (by omega)]
          exact List.mem_cons_self
  | case2 s crossed => omega

/-- No stage of the walk is below the nearest row. -/
def AllNearest (r : Int) : Prop :=
  ∀ s ∈ stages (.start r), 0 ≤ excess r s.x (s.y + 1)

/-- If no stage is too low then the walk goes down in every column of its last part: the decision
variable has drifted so far that the walk would have to be far too low before it stays in its
row. -/
theorem goes_down (positive : 1 ≤ r) (all : AllNearest r) (stage : s ∈ stages (.start r))
    (late : 2 * (s.y - s.x) ≤ r) : 0 < s.d := by
  obtain ⟨here, within, drifts⟩ := Stage.drifts positive s stage
  have nearest := all s stage
  have decision := drifts.decision
  rw [excess_row] at nearest
  rw [excess_column] at decision
  omega

/-- So the last part of the walk runs along a diagonal. -/
theorem exists_stage_down (positive : 1 ≤ r) (all : AllNearest r) (stage : s ∈ stages (.start r))
    (late : 2 * (s.y - s.x) ≤ r) (k : Nat) (within : 2 * k ≤ s.y - s.x) :
    ∃ u ∈ stages (.start r), u.x = s.x + k ∧ u.y = s.y - k := by
  induction k with
  | zero => exact ⟨s, stage, by omega, by omega⟩
  | succ k ih =>
      obtain ⟨u, before, column, row⟩ := ih (by omega)
      have down : u.next = ⟨u.x + 1, u.y - 1, u.d + 4 * (u.x - u.y + 2) + 10⟩ := by
        rw [Stage.next, if_pos (goes_down positive all before (by omega))]
      refine ⟨u.next, next_mem_stages before ?_, ?_, ?_⟩ <;> rw [down] <;> dsimp only <;> omega

/-- An outline of nearest rows cannot be large: a diagonal of half the radius does not follow the
circle. -/
theorem radius_lt_of_allNearest (positive : 1 ≤ r) (all : AllNearest r) : r < 22 := by
  by_contra large
  obtain ⟨s, stage, near⟩ := exists_stage_near_diagonal (s := .start r) (t := r / 2) (by omega)
    (by simp only [Stage.start]; omega)
  obtain ⟨here, within, drifts⟩ := Stage.drifts positive s stage
  obtain ⟨k, half⟩ : ∃ k : Nat, 2 * (k : Int) ≤ s.y - s.x ∧ s.y - s.x ≤ 2 * k + 1 :=
    ⟨((s.y - s.x) / 2).toNat, by omega, by omega⟩
  obtain ⟨u, last, column, row⟩ := exists_stage_down positive all stage (by omega) k half.1
  have below := drifts.below here
  have nearest := all u last
  have low := within.row
  rw [excess] at below nearest
  rw [column, row] at nearest
  -- the diagonal leads away from the circle by the square of its length
  have away : 2 * k * (s.y - s.x) - 2 * (k * k) + k < 2 * s.y := by linarith
  have long : 2 * k * (2 * k) ≤ 2 * k * (s.y - s.x) :=
    Int.mul_le_mul_of_nonneg_left half.1 (by omega)
  have short : r ≤ 4 * k + 5 := by omega
  have small : (k : Int) ≤ 4 := by
    by_contra big
    nlinarith
  omega

instance (r : Int) : Decidable (AllNearest r) :=
  inferInstanceAs (Decidable (∀ s ∈ stages (.start r), _))

/-- The circles that are left, one by one. -/
theorem allNearest_iff_of_small :
    ∀ n ∈ List.range 21, AllNearest ((n : Int) + 1) ↔ (n : Int) + 1 ≤ 4 := by
  decide +kernel

/-- **Outlines of nearest rows** are those with a radius of at most four. -/
theorem allNearest_iff (positive : 1 ≤ r) : AllNearest r ↔ r ≤ 4 := by
  by_cases small : r < 22
  · obtain ⟨n, bound, rfl⟩ : ∃ n : Nat, n < 21 ∧ r = n + 1 := ⟨(r - 1).toNat, by omega, by omega⟩
    exact allNearest_iff_of_small n (List.mem_range.2 bound)
  · constructor
    · exact fun all => absurd (radius_lt_of_allNearest positive all) small
    · omega

end Nearest

/-! ### Points of an outline -/

variable {center : Point} {r dx dy : Int}

/-- The points of the eighth that is walked are those of the stages. -/
theorem mem_outline_iff_stage (positive : 0 ≤ r) (right : 0 ≤ dx) (below : dx ≤ dy) :
    ⟨center.x + dx, center.y + dy⟩ ∈ outline center r ↔
      ∃ s ∈ stages (.start r), s.x = dx ∧ s.y = dy := by
  rw [mem_outline_iff positive]
  refine exists_congr fun s => and_congr_right fun _ => ?_
  simp only [Point.nearness, Point.distance]
  omega

/-- **Outlines drift.** At every stage of the walk along a circle the decision variable is twice the
square by which the point halfway to the row below is beyond the circle in the next column, but for
one and for a drift of four for every column and every row behind the walk. So in the eighth that is
walked no point of the outline is too high, and none is more than two rows too low. All of them are
in rows that are nearest to the circle if and only if the radius is at most four. -/
theorem outlines_drift (center : Point) (r : Int) (positive : 1 ≤ r) :
    (∀ s ∈ stages (.start r), s.d = 2 * excess r (s.x + 1) s.y + 1 + 4 * (s.x + (r - s.y))) ∧
      (∀ dx dy : Int, ⟨center.x + dx, center.y + dy⟩ ∈ outline center r → 0 ≤ dx → dx ≤ dy →
        (2 * dy - 1) ^ 2 ≤ 4 * (r * r - dx * dx) ∧ 4 * (r * r - dx * dx) ≤ (2 * dy + 4) ^ 2) ∧
      ((∀ dx dy : Int, ⟨center.x + dx, center.y + dy⟩ ∈ outline center r → 0 ≤ dx → dx ≤ dy →
        Nearest r dx dy) ↔ r ≤ 4) := by
  have nonneg : 0 ≤ r := by omega
  refine ⟨fun s stage => (Stage.drifts positive s stage).2.2.decision, ?_, ?_⟩
  · intro dx dy member right below
    obtain ⟨s, stage, rfl, rfl⟩ := (mem_outline_iff_stage nonneg right below).1 member
    obtain ⟨here, within, drifts⟩ := Stage.drifts positive s stage
    exact ⟨square_le_iff.2 (drifts.below here), drifts.le_square positive here within⟩
  · rw [← allNearest_iff positive]
    constructor
    · intro nearest s stage
      obtain ⟨here, within, -⟩ := Stage.drifts positive s stage
      have member : ⟨center.x + s.x, center.y + s.y⟩ ∈ outline center r :=
        (mem_outline_iff_stage nonneg within.column here).2 ⟨s, stage, rfl, rfl⟩
      exact (nearest_iff.1 (nearest s.x s.y member within.column here)).2
    · intro all dx dy member right below
      obtain ⟨s, stage, rfl, rfl⟩ := (mem_outline_iff_stage nonneg right below).1 member
      exact nearest_iff.2 ⟨(Stage.drifts positive s stage).2.2.below below, all s stage⟩

/-- The smallest circle that drifts: the circle of radius five goes through the point three columns
and four rows away, and its outline passes one row below. -/
theorem row_is_not_nearest :
    (1 ≤ 5 ∧ 5 ≤ maxRadius) ∧ (⟨3, 3⟩ : Point) ∈ outline ⟨0, 0⟩ 5 ∧
      ¬Nearest 5 3 3 ∧ Nearest 5 3 4 := by
  decide +kernel

/-- The outline of radius five is too low somewhere, but by less than two rows. -/
theorem radius_five_drifts :
    ¬(∀ dx dy : Int, ⟨0 + dx, 0 + dy⟩ ∈ outline ⟨0, 0⟩ 5 → 0 ≤ dx → dx ≤ dy → Nearest 5 dx dy) ∧
      (⟨0 + 3, 0 + 3⟩ : Point) ∈ outline ⟨0, 0⟩ 5 ∧
      4 * (5 * 5 - 3 * 3) ≤ ((2 * 3 + 4) ^ 2 : Int) := by
  obtain ⟨-, near, small⟩ := outlines_drift ⟨0, 0⟩ 5 (by decide)
  have member : (⟨0 + 3, 0 + 3⟩ : Point) ∈ outline ⟨0, 0⟩ 5 := by decide +kernel
  exact ⟨fun all => absurd (small.1 all) (by decide), member,
    (near 3 3 member (by decide) (by decide)).2⟩

end PenScript.Circle
