import Mathlib.Data.Fintype.Card
import Mathlib.Data.Fintype.Prod
import PenScript.Studio
import PenScript.Proofs.Coverage
import PenScript.Proofs.Filled

/-!
# Counting pixels

How many pixels of a region have a color is counted by walking through the columns and the rows that
the region shares with the canvas. The region may start before the canvas and end behind it, or lie
beside it, and its far side may be out of reach for integers of 64 bits. What is counted is said
here without walking, as the number of a finite set; so a region that is cut in two has as many
pixels as its parts have together.

## Main definitions

* `Canvas.number` — how many pixels of the canvas have a property;
* `Point.InRegion` — the points of a region, whose sides are any integers;
* `Canvas.saturatedCount` — what counting comes to with integers of 64 bits.

## Main results

* `Canvas.Lists.length_eq`: a list of all pixels with a property is as long as their number;
* `Canvas.saturatedCount_eq`: nothing is lost when the far side of a region saturates;
* `Canvas.colors_are_counted`: counting is exact, and the counts of parts add up.
-/

namespace PenScript

open Integer

/-- The point is in the region of `w` columns from column `x` on, and `h` rows from row `y` on. -/
def Point.InRegion (x y w h : Int) (p : Point) : Prop :=
  (x ≤ p.x ∧ p.x < x + w) ∧ y ≤ p.y ∧ p.y < y + h

instance (x y w h : Int) (p : Point) : Decidable (p.InRegion x y w h) :=
  inferInstanceAs (Decidable (_ ∧ _))

/-! ### The number of pixels -/

namespace Canvas

/-- The point in a column and a row of the canvas. -/
def place (c : Canvas) (q : Fin c.width × Fin c.height) : Point :=
  ⟨q.1.val, q.2.val⟩

/-- How many pixels of the canvas have the property `P`. -/
def number (c : Canvas) (P : Point → Prop) [DecidablePred P] : Nat :=
  (Finset.univ.filter fun q => P (c.place q)).card

/-- Different pixels are at different places. -/
theorem place_injective (c : Canvas) : Function.Injective c.place := by
  rintro ⟨x, y⟩ ⟨x', y'⟩ same
  simp only [place, Point.mk.injEq] at same
  simp only [Prod.mk.injEq, Fin.ext_iff]
  omega

/-- The canvas contains the places of its pixels, and no others. -/
theorem contains_iff_exists_place {c : Canvas} {p : Point} :
    c.Contains p ↔ ∃ q, c.place q = p := by
  constructor
  · intro inside
    obtain ⟨x, y, column, row, rfl⟩ := exists_natCast inside
    exact ⟨(⟨x, column⟩, ⟨y, row⟩), rfl⟩
  · rintro ⟨q, rfl⟩
    exact contains_natCast.2 ⟨q.1.isLt, q.2.isLt⟩

/-- No pixel is listed twice. -/
theorem Lists.nodup {c : Canvas} {P : Point → Prop} {ps : List Point} (lists : c.Lists P ps) :
    ps.Nodup := by
  refine lists.ordered.imp fun before same => ?_
  subst same
  exact Std.Asymm.asymm _ _ before before

/-- Of a list of pixels with a property, those that have another one as well. -/
theorem Lists.filter {c : Canvas} {P : Point → Prop} {ps : List Point} (lists : c.Lists P ps)
    (Q : Point → Prop) [DecidablePred Q] : c.Lists (fun p => P p ∧ Q p) (ps.filter Q) := by
  refine ⟨lists.ordered.filter _, fun p => ?_⟩
  rw [List.mem_filter, lists.mem_iff, decide_eq_true_iff, and_assoc]

variable {c : Canvas} {P Q R : Point → Prop} [DecidablePred P] [DecidablePred Q] [DecidablePred R]
  {ps : List Point}

/-- There are no more pixels of a kind than there are pixels. -/
theorem number_le (c : Canvas) (P : Point → Prop) [DecidablePred P] :
    c.number P ≤ c.width * c.height := by
  refine (Finset.card_filter_le _ _).trans ?_
  rw [Finset.card_univ, Fintype.card_prod, Fintype.card_fin, Fintype.card_fin]

/-- Pixels that have one property or the other, but never both, are counted on their own. -/
theorem number_add (either : ∀ p, P p ↔ Q p ∨ R p) (apart : ∀ p, Q p → ¬R p) :
    c.number P = c.number Q + c.number R := by
  unfold number
  rw [← Finset.card_union_of_disjoint]
  · rw [← Finset.filter_or]
    simp only [either]
  · exact Finset.disjoint_filter.2 fun q _ => apart _

/-- There are no pixels of a kind that nothing has. -/
theorem number_eq_zero (none : ∀ p, ¬P p) : c.number P = 0 := by
  refine Finset.card_eq_zero.2 (Finset.filter_eq_empty_iff.2 fun q _ => ?_)
  exact none _

/-- **A list of all pixels with a property** is as long as there are such pixels. -/
theorem Lists.length_eq (lists : c.Lists P ps) : ps.length = c.number P := by
  have same : ps.toFinset = (Finset.univ.filter fun q => P (c.place q)).image c.place := by
    ext p
    rw [List.mem_toFinset, lists.mem_iff, contains_iff_exists_place, Finset.mem_image]
    constructor
    · rintro ⟨⟨q, rfl⟩, holds⟩
      exact ⟨q, Finset.mem_filter.2 ⟨Finset.mem_univ q, holds⟩, rfl⟩
    · rintro ⟨q, member, rfl⟩
      exact ⟨⟨q, rfl⟩, (Finset.mem_filter.1 member).2⟩
  rw [← List.toFinset_card_of_nodup lists.nodup, same,
    Finset.card_image_of_injective _ c.place_injective, number]

/-! ### Counting -/

/-- What is counted is the number of pixels in the region that have the color. -/
theorem count_eq_number (c : Canvas) (color : Color) (x y w h : Int) :
    c.count color x y w h = c.number fun p => p.InRegion x y w h ∧ c.get p = color := by
  rw [count, List.countP_eq_length_filter]
  exact ((c.lists_region ⟨x, x + w⟩ ⟨y, y + h⟩).filter fun p => c.get p = color).length_eq

/-- A region without columns or without rows has no pixels. -/
theorem count_eq_zero (color : Color) {x y w h : Int} (none : w ≤ 0 ∨ h ≤ 0) :
    c.count color x y w h = 0 := by
  rw [count_eq_number]
  refine number_eq_zero fun p => ?_
  simp only [Point.InRegion]
  omega

/-- The counts of two parts of a region add up, if the parts make up the region and have no point in
common. -/
theorem count_add (c : Canvas) (color : Color) {x y w h x₁ y₁ w₁ h₁ x₂ y₂ w₂ h₂ : Int}
    (either : ∀ p : Point, p.InRegion x y w h ↔ p.InRegion x₁ y₁ w₁ h₁ ∨ p.InRegion x₂ y₂ w₂ h₂)
    (apart : ∀ p : Point, p.InRegion x₁ y₁ w₁ h₁ → ¬p.InRegion x₂ y₂ w₂ h₂) :
    c.count color x y w h = c.count color x₁ y₁ w₁ h₁ + c.count color x₂ y₂ w₂ h₂ := by
  simp only [count_eq_number]
  refine number_add (fun p => ?_) fun p here there => apart p here.1 there.1
  rw [either, or_and_right]

end Canvas

/-! ### With integers of 64 bits -/

/-- The numbers from `start` on, `length` of them, that are between zero and `extent`, as they are
computed with integers of 64 bits: the number behind the last one saturates, and only the low bits
of the extent are kept. -/
def Span.clipped (start length : Int) (extent : Nat) : Span :=
  ⟨max start 0, min (saturate (start + length)).val (Int.bmod extent 18446744073709551616)⟩

/-- Nothing is lost where the extent is an integer: an end that saturates is behind it, or before
zero. -/
theorem Span.mem_clipped {start length i : Int} {extent : Nat}
    (small : extent ≤ 9223372036854775807) :
    i ∈ clipped start length extent ↔
      (start ≤ i ∧ i < start + length) ∧ 0 ≤ i ∧ i < extent := by
  have kept : Int.bmod extent 18446744073709551616 = extent := by
    rw [Int.bmod_def]
    omega
  simp only [clipped, saturate, mem_def, kept]
  omega

namespace Canvas

/-- There are no more pixels than the largest integer of 64 bits, as on every canvas that is kept in
a memory. -/
def FitsMemory (c : Canvas) : Prop :=
  c.width * c.height ≤ 9223372036854775807

/-- How many pixels of a region have a color, as it is computed with integers of 64 bits. -/
def saturatedCount (c : Canvas) (color : Color) (x y w h : Integer) : Nat :=
  if w.val ≤ 0 ∨ h.val ≤ 0 then 0
  else (Span.grid (.clipped x.val w.val c.width) (.clipped y.val h.val c.height)).countP
    fun p => c.get p = color

variable {c : Canvas} {color : Color} {x y w h : Integer}

/-- Canvases of the sides that programs are run on fit. -/
theorem fitsMemory_of_le (wide : c.width ≤ maxCanvasSide) (high : c.height ≤ maxCanvasSide) :
    c.FitsMemory := by
  have area : c.width * c.height ≤ maxCanvasSide * maxCanvasSide := Nat.mul_le_mul wide high
  exact area.trans (by decide)

/-- A canvas with pixels has sides that are integers. A canvas without pixels may have a side that
is none, but then its other side is zero, and nothing is listed. -/
theorem lists_clipped (fits : c.FitsMemory) (x y w h : Int) :
    c.Lists (Point.InRegion x y w h)
      (Span.grid (.clipped x w c.width) (.clipped y h c.height)) := by
  refine ⟨Span.pairwise_grid _ _, fun p => ?_⟩
  rw [Span.mem_grid]
  by_cases some : 0 < c.width ∧ 0 < c.height
  · have wide : c.width ≤ 9223372036854775807 := (Nat.le_mul_of_pos_right _ some.2).trans fits
    have high : c.height ≤ 9223372036854775807 := (Nat.le_mul_of_pos_left _ some.1).trans fits
    rw [Span.mem_clipped wide, Span.mem_clipped high, Contains, Point.InRegion]
    omega
  · have outside : ¬c.Contains p := by
      simp only [Contains]
      omega
    have unlisted : ¬(p.x ∈ Span.clipped x w c.width ∧ p.y ∈ Span.clipped y h c.height) := by
      rintro ⟨column, row⟩
      by_cases wide : c.width = 0
      · rw [wide, Span.mem_clipped (by decide)] at column
        omega
      · have high : c.height = 0 := by omega
        rw [high, Span.mem_clipped (by decide)] at row
        omega
    exact iff_of_false unlisted fun inside => outside inside.1

/-- **Nothing is lost when the far side of a region saturates.** -/
theorem saturatedCount_eq (fits : c.FitsMemory) :
    c.saturatedCount color x y w h = c.count color x.val y.val w.val h.val := by
  rw [saturatedCount]
  by_cases none : w.val ≤ 0 ∨ h.val ≤ 0
  · rw [if_pos none, count_eq_zero color none]
  · rw [if_neg none, count, (lists_clipped fits x.val y.val w.val h.val).unique
      (c.lists_region ⟨x.val, x.val + w.val⟩ ⟨y.val, y.val + h.val⟩)]

end Canvas

/-! ### Asking for a count -/

/-- The answer is the count as an integer, if the first argument names a color and all others have
integer readings. -/
theorem Query.ask_colorCount (s : Scene) (loc : Location) {name : String} {color : Color}
    {vx vy vw vh : Value} {x y w h : Integer} (named : Color.parse? name = some color)
    (column : vx.asInt? = some x) (row : vy.asInt? = some y) (width : vw.asInt? = some w)
    (height : vh.asInt? = some h) :
    colorCount.ask s loc [.str name, vx, vy, vw, vh] =
      pure (.int (saturate (s.canvas.count color x.val y.val w.val h.val))) := by
  simp only [ask, colorArg, integerArg, Eval.string, Eval.color, Eval.integer, Value.asStr?, named,
    column, row, width, height, pure_bind]

/-- **Counting is exact.** On every canvas, the count of a color in a region is the number of pixels
of that color in the region, whose sides are any integers; a region without columns or rows has
none. Computing with integers of 64 bits that saturate leads to the same count, which is also what a
program is answered, on every canvas that is kept in a memory. And wherever a region is cut in two,
between columns or between rows, the counts of the parts add up. -/
theorem Canvas.colors_are_counted (c : Canvas) (color : Color) :
    (∀ x y w h : Int,
      c.count color x y w h = c.number (fun p =>
        ((x ≤ p.x ∧ p.x < x + w) ∧ y ≤ p.y ∧ p.y < y + h) ∧ c.get p = color) ∧
      (w ≤ 0 ∨ h ≤ 0 → c.count color x y w h = 0)) ∧
    (c.FitsMemory → ∀ x y w h : Integer,
      c.saturatedCount color x y w h = c.count color x.val y.val w.val h.val ∧
      ∀ (s : Scene) (loc : Location) (name : String) (vx vy vw vh : Value), s.canvas = c →
        Color.parse? name = some color → vx.asInt? = some x → vy.asInt? = some y →
        vw.asInt? = some w → vh.asInt? = some h →
        ∃ n : Integer, Query.colorCount.ask s loc [.str name, vx, vy, vw, vh] = pure (.int n) ∧
          n.val = c.count color x.val y.val w.val h.val) ∧
    ∀ x y w h : Int,
      (∀ a : Int, 0 ≤ a → a ≤ w →
        c.count color x y w h = c.count color x y a h + c.count color (x + a) y (w - a) h) ∧
      ∀ b : Int, 0 ≤ b → b ≤ h →
        c.count color x y w h = c.count color x y w b + c.count color x (y + b) w (h - b) := by
  refine ⟨fun x y w h => ⟨c.count_eq_number color x y w h, count_eq_zero color⟩, ?_, ?_⟩
  · intro fits x y w h
    refine ⟨saturatedCount_eq fits, ?_⟩
    rintro s loc name vx vy vw vh rfl named column row width height
    refine ⟨_, Query.ask_colorCount s loc named column row width height, ?_⟩
    have small : s.canvas.count color x.val y.val w.val h.val ≤ 9223372036854775807 := by
      rw [count_eq_number]
      exact (number_le _ _).trans fits
    simp only [saturate]
    omega
  · intro x y w h
    refine ⟨fun a left right => ?_, fun b top bottom => ?_⟩
    -- the parts are told apart by the column, or else by the row
    all_goals
      refine c.count_add color (fun p => ?_) fun p => ?_
      all_goals
        simp only [Point.InRegion]
        omega

/-- Two columns and two rows, white but for a black corner. -/
def Canvas.corner : Canvas :=
  (blank 2 2).set ⟨1, 1⟩ .black

/-- What a program sees of the corner. -/
def Canvas.cornerScene : Scene where
  canvas := corner
  pen := {}
  vars := .empty
  dice _ := 0

/-- The corner is found in a region whose far sides are both behind the largest integer; asking for
it gives one as well, and so do the two parts of the region behind the first column. -/
theorem Canvas.corner_is_counted :
    corner.saturatedCount .black .one .one { val := 9223372036854775807 }
      { val := 9223372036854775807 } = 1 ∧
    (∃ n : Integer, Query.colorCount.ask cornerScene .start [.str "black", .bool true, .bool true,
      .int { val := 9223372036854775807 }, .int { val := 9223372036854775807 }] = pure (.int n) ∧
      n.val = 1) ∧
    corner.count .black 1 1 1 9223372036854775807 +
      corner.count .black (1 + 1) 1 (9223372036854775807 - 1) 9223372036854775807 = 1 := by
  obtain ⟨-, stored, split⟩ := colors_are_counted corner .black
  have found : corner.count .black 1 1 9223372036854775807 9223372036854775807 = 1 := by decide
  have fits : corner.FitsMemory := fitsMemory_of_le (by decide) (by decide)
  obtain ⟨saturated, asked⟩ := stored fits .one .one { val := 9223372036854775807 }
    { val := 9223372036854775807 }
  obtain ⟨n, answer, count⟩ := asked cornerScene .start "black" (.bool true) (.bool true)
    (.int { val := 9223372036854775807 }) (.int { val := 9223372036854775807 }) rfl (by decide) rfl
    rfl rfl rfl
  obtain ⟨columns, -⟩ := split 1 1 9223372036854775807 9223372036854775807
  refine ⟨saturated.trans found, ⟨n, answer, count.trans (congrArg _ found)⟩, ?_⟩
  exact (columns 1 (by decide) (by decide)).symm.trans found

end PenScript
