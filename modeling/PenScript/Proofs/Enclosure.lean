import Mathlib.Data.List.Chain
import Mathlib.Data.List.Nodup
import PenScript.Proofs.Coverage
import PenScript.Proofs.Flooding
import PenScript.Proofs.Midpoint

/-!
# What a circle encloses

The outline of a circle is found by walking one eighth of it and reflecting what is found. Every
stage of the walk stands for up to eight points, and they are told apart from those of the other
stages by two numbers: how far a point is from the center in the direction in which it is nearer,
and how far in the other one. A point is enclosed if the walk passes above it. One step to the left,
to the right, up or down from an enclosed point leads to another one or onto the outline, because
the walk goes down by at most one row in a column. So nothing leaves a circle without crossing its
outline, neither a path nor a flood.

## Main definitions

* `Point.nearness` — how far a point is from another one in the direction in which it is nearer;
* `Circle.Encloses` — the points inside of the outline.

## Main results

* `Circle.mem_outline_iff`: a point of the outline is found at one stage;
* `Circle.nodup_outline`: and at no other one;
* `Circle.Encloses.step`: a step from an enclosed point;
* `Circle.outlines_enclose`: outlines are symmetric and separate the plane.
-/

namespace PenScript

/-! ### Two distances -/

/-- How far two points are from each other, in columns or in rows, whichever is less far. -/
def Point.nearness (p q : Point) : Nat :=
  min (p.x - q.x).natAbs (p.y - q.y).natAbs

/-- One step to the side or back changes the distance from a number by one. -/
theorem natAbs_sub_step {a b : Int} (step : b = a + 1 ∨ b = a - 1) (c : Int) :
    (c - b).natAbs = (c - a).natAbs + 1 ∨ (c - b).natAbs + 1 = (c - a).natAbs := by
  omega

/-- A neighbour is one row or one column away. -/
theorem Point.Adjacent.cases {p q : Point} (adjacent : p.Adjacent q) :
    (q.x = p.x ∧ (q.y = p.y + 1 ∨ q.y = p.y - 1)) ∨
      q.y = p.y ∧ (q.x = p.x + 1 ∨ q.x = p.x - 1) := by
  simp only [Adjacent] at adjacent
  omega

/-- A step changes one of the two distances by one. The lesser one grows, and the greater one
shrinks, only if they differ. -/
theorem Point.Adjacent.distances {p q : Point} (adjacent : p.Adjacent q) (center : Point) :
    (center.nearness q = center.nearness p ∧ center.distance q = center.distance p + 1) ∨
      (center.nearness q + 1 = center.nearness p ∧ center.distance q = center.distance p) ∨
      center.nearness p < center.distance p ∧
        ((center.nearness q = center.nearness p + 1 ∧ center.distance q = center.distance p) ∨
          center.nearness q = center.nearness p ∧ center.distance q + 1 = center.distance p) := by
  simp only [nearness, distance]
  rcases adjacent.cases with ⟨same, step⟩ | ⟨same, step⟩
  · have one := natAbs_sub_step step center.y
    rw [same]
    generalize (center.x - p.x).natAbs = x, (center.y - p.y).natAbs = y,
      (center.y - q.y).natAbs = y' at one ⊢
    rcases one with rfl | rfl <;> omega
  · have one := natAbs_sub_step step center.x
    rw [same]
    generalize (center.y - p.y).natAbs = y, (center.x - p.x).natAbs = x,
      (center.x - q.x).natAbs = x' at one ⊢
    rcases one with rfl | rfl <;> omega

/-- What is left of a list when repetitions are dropped has no repetitions. -/
theorem nodup_eraseDups {α : Type} [BEq α] [LawfulBEq α] (l : List α) : l.eraseDups.Nodup := by
  induction hn : l.length using Nat.strongRecOn generalizing l with
  | ind n ih =>
      rcases l with _ | ⟨a, l⟩
      · exact List.nodup_nil
      · rw [List.eraseDups_cons]
        have shorter : (l.filter fun b => !b == a).length < n := by
          rw [← hn, List.length_cons]
          exact Nat.lt_succ_of_le (List.length_filter_le _ _)
        refine List.nodup_cons.2 ⟨fun again => ?_, ih _ shorter _ rfl⟩
        have kept := (List.mem_filter.1 (List.mem_eraseDups.1 again)).2
        simp at kept

namespace Circle

variable {center p q : Point} {r : Int}

/-! ### From stage to stage -/

namespace Stage

/-- Every step of the walk goes one column on. -/
theorem next_x (s : Stage) : s.next.x = s.x + 1 := by
  rw [next]
  split <;> rfl

/-- The walk goes down by at most one row in a column. -/
theorem next_y (s : Stage) : s.next.y = s.y ∨ s.next.y = s.y - 1 := by
  rw [next]
  split
  · exact Or.inr rfl
  · exact Or.inl rfl

end Stage

/-- The walk goes on as long as it has not crossed the diagonal. -/
theorem next_mem_stages {s t : Stage} (stage : t ∈ stages s) (ahead : t.next.x ≤ t.next.y) :
    t.next ∈ stages s := by
  induction s using stages.induct with
  | case1 s here ih =>
      rw [stages_of_le here] at stage ⊢
      rcases List.mem_cons.1 stage with rfl | later
      · rw [stages_of_le ahead]
        exact List.mem_cons_of_mem _ List.mem_cons_self
      · exact List.mem_cons_of_mem _ (ih later)
  | case2 s crossed =>
      rw [stages_of_not_le crossed] at stage
      exact absurd stage List.not_mem_nil

/-- Every stage but the first one follows another one. -/
theorem eq_or_exists_next {s t : Stage} (stage : t ∈ stages s) :
    t = s ∨ ∃ u ∈ stages s, u.next = t := by
  induction s using stages.induct with
  | case1 s here ih =>
      rw [stages_of_le here] at stage ⊢
      rcases List.mem_cons.1 stage with first | later
      · exact Or.inl first
      · rcases ih later with rfl | ⟨u, earlier, follows⟩
        · exact Or.inr ⟨s, List.mem_cons_self, rfl⟩
        · exact Or.inr ⟨u, List.mem_cons_of_mem _ earlier, follows⟩
  | case2 s crossed =>
      rw [stages_of_not_le crossed] at stage
      exact absurd stage List.not_mem_nil

/-- No two stages are in the same column. -/
theorem pairwise_stages (s : Stage) : (stages s).Pairwise fun a b => a.x < b.x := by
  induction s using stages.induct with
  | case1 s here ih =>
      rw [stages_of_le here]
      refine List.pairwise_cons.2 ⟨fun t later => ?_, ih⟩
      have right : ∀ t ∈ stages s.next, t.x ≤ t.y ∧ s.x < t.x := by
        refine stages_invariant (fun t _ behind => ?_) ?_
        · rw [Stage.next_x]
          omega
        · rw [Stage.next_x]
          omega
      exact (right t later).2
  | case2 s crossed =>
      rw [stages_of_not_le crossed]
      exact List.Pairwise.nil

/-- No two stages are in one column. -/
theorem eq_of_column {s t u : Stage} (first : t ∈ stages s) (second : u ∈ stages s)
    (same : t.x = u.x) : t = u := by
  have apart : (stages s).Pairwise fun a b => a.x ≠ b.x :=
    (pairwise_stages s).imp fun below => Int.ne_of_lt below
  have : Std.Symm fun a b : Stage => a.x ≠ b.x := ⟨fun _ _ => Ne.symm⟩
  exact Classical.not_not.1 fun other => apart.forall first second other same

/-! ### The points of a stage -/

/-- The reflections of a place are the points with its two distances from the center. -/
theorem mem_octants_iff {x y : Int} (column : 0 ≤ x) (below : x ≤ y) :
    p ∈ octants center x y ↔ x = center.nearness p ∧ y = center.distance p := by
  rw [mem_octants]
  simp only [Point.nearness, Point.distance]
  constructor
  · rintro (⟨hx, hy⟩ | ⟨hx, hy⟩)
    · omega
    · omega
  · rintro ⟨lesser, greater⟩
    omega

/-- A point is on the outline if one stage has its two distances from the center. -/
theorem mem_outline_iff (positive : 0 ≤ r) :
    p ∈ outline center r ↔
      ∃ s ∈ stages (.start r), s.x = center.nearness p ∧ s.y = center.distance p := by
  rw [outline_eq, List.mem_flatMap]
  refine exists_congr fun s => and_congr_right fun stage => ?_
  obtain ⟨here, within⟩ := Stage.within_stages positive s stage
  exact mem_octants_iff within.column here

/-- No point of an outline is listed twice. -/
theorem nodup_outline (center : Point) (positive : 0 ≤ r) : (outline center r).Nodup := by
  rw [outline_eq, List.nodup_flatMap]
  refine ⟨fun s _ => nodup_eraseDups _, (pairwise_stages _).imp_of_mem ?_⟩
  intro s t first second apart p here there
  obtain ⟨below, within⟩ := Stage.within_stages positive s first
  obtain ⟨below', within'⟩ := Stage.within_stages positive t second
  have lesser := ((mem_octants_iff within.column below).1 here).1
  have lesser' := ((mem_octants_iff within'.column below').1 there).1
  omega

/-! ### Inside -/

/-- The point is inside of the outline: the walk passes above it, seen from the center. -/
def Encloses (center : Point) (r : Int) (p : Point) : Prop :=
  ∃ s ∈ stages (.start r), s.x = center.nearness p ∧ center.distance p < s.y

/-- The center is enclosed. -/
theorem encloses_center (center : Point) (positive : 0 < r) : Encloses center r center := by
  refine ⟨.start r, ?_, ?_, ?_⟩
  · rw [stages_of_le (s := .start r) (Int.le_of_lt positive)]
    exact List.mem_cons_self
  · simp only [Stage.start, Point.nearness]
    omega
  · simp only [Stage.start, Point.distance]
    omega

/-- What is enclosed is nearer to the center than the radius. -/
theorem Encloses.distance_lt (encloses : Encloses center r p) (positive : 0 ≤ r) :
    center.distance p < r := by
  obtain ⟨s, stage, -, above⟩ := encloses
  have row := (Stage.within_stages positive s stage).2.row
  omega

/-- **A step from an enclosed point** leads to another one or onto the outline. -/
theorem Encloses.step (encloses : Encloses center r p) (positive : 0 ≤ r)
    (adjacent : p.Adjacent q) : Encloses center r q ∨ q ∈ outline center r := by
  obtain ⟨s, stage, column, above⟩ := encloses
  rw [mem_outline_iff positive]
  rcases adjacent.distances center with
    ⟨same, away⟩ | ⟨toward, same⟩ | ⟨apart, ⟨away, same⟩ | ⟨same, toward⟩⟩
  · -- further away in the same column: still below the walk, or on it
    rcases Int.lt_or_le (center.distance q) s.y with below | reached
    · exact Or.inl ⟨s, stage, by omega, below⟩
    · exact Or.inr ⟨s, stage, by omega, by omega⟩
  · -- the walk was no lower in the column before
    rcases eq_or_exists_next stage with rfl | ⟨u, earlier, rfl⟩
    · simp only [Stage.start] at column
      omega
    · have before := u.next_x
      have higher := u.next_y
      exact Or.inl ⟨u, earlier, by omega, by omega⟩
  · -- the walk is at most one row lower in the next column, and has not crossed the diagonal there
    have next := s.next_x
    have lower := s.next_y
    have later := next_mem_stages stage (by omega)
    rcases Int.lt_or_le (center.distance q) s.next.y with below | reached
    · exact Or.inl ⟨s.next, later, by omega, below⟩
    · exact Or.inr ⟨s.next, later, by omega, by omega⟩
  · exact Or.inl ⟨s, stage, by omega, by omega⟩

/-- What is enclosed is not on the outline. -/
theorem Encloses.not_mem_outline (encloses : Encloses center r p) (positive : 0 ≤ r) :
    p ∉ outline center r := by
  intro member
  obtain ⟨s, stage, column, above⟩ := encloses
  obtain ⟨t, stage', column', row⟩ := (mem_outline_iff positive).1 member
  obtain rfl := eq_of_column stage stage' (column.trans column'.symm)
  omega

/-- A path that starts inside and does not meet the outline stays inside. -/
theorem encloses_of_path {path : List Point} (positive : 0 ≤ r)
    (steps : path.IsChain Point.Adjacent) (start : ∀ p ∈ path.head?, Encloses center r p)
    (avoids : ∀ p ∈ path, p ∉ outline center r) : ∀ p ∈ path, Encloses center r p := by
  induction path with
  | nil => exact fun p member => absurd member List.not_mem_nil
  | cons p path ih =>
      have here : Encloses center r p := start p rfl
      refine List.forall_mem_cons.2 ⟨here, ih steps.tail ?_ fun q later =>
        avoids q (List.mem_cons_of_mem _ later)⟩
      rcases path with _ | ⟨q, path⟩
      · exact fun _ none => absurd none (by simp)
      · rintro _ ⟨rfl⟩
        have adjacent := (List.isChain_cons_cons.1 steps).1
        exact (here.step positive adjacent).resolve_right (avoids q (by simp))

/-! ### Flooding -/

/-- A region that starts in the center stays inside of an outline of other colors. -/
theorem encloses_of_connected {c : Canvas} (positive : 0 < r)
    (walls : ∀ p ∈ outline center r, c.Contains p → c.get p ≠ c.get center)
    (path : Flood.Connected c center q) : Encloses center r q := by
  induction path with
  | seed _ => exact encloses_center center positive
  | step _ adjacent inside same ih =>
      refine (ih.step (Int.le_of_lt positive) adjacent).resolve_right fun wall => ?_
      exact walls _ wall inside same

/-- What the walk has painted in an opaque color of its own holds a flood that starts in the
center. -/
theorem encloses_of_painted {m m' : Machine} (positive : 0 < r)
    (painted : Machine.paint (m.canvas.coat (outline center r) 1) m = .ok () m')
    (full : m.pen.color.a = 255) (other : m.canvas.get center ≠ m.pen.color)
    (path : Flood.Connected m'.canvas center q) : Encloses center r q := by
  rw [Machine.paint_of_fits fun p _ => Brush.fits_one p] at painted
  have painting := Machine.painted_of_paintPixels painted
  have inside : center ∉ outline center r :=
    (encloses_center center positive).not_mem_outline (Int.le_of_lt positive)
  have middle : m'.canvas.get center = m.canvas.get center :=
    painting.rest center fun reached => inside (Canvas.reached_one.1 reached).2
  refine encloses_of_connected positive (fun p member on => ?_) path
  have on : m.canvas.Contains p := by
    rwa [Canvas.Contains, painting.width, painting.height] at on
  rw [painting.reached p (Canvas.reached_one.2 ⟨on, member⟩), Color.onto_of_opaque full, middle]
  exact other.symm

/-! ### Outlines -/

/-- The points surround the center at distance `r`: no point is listed twice, and none is further
than `r` from the center, neither in columns nor in rows. The four ends are listed. Left and right,
above and below, and columns and rows can be exchanged. And a path from the center to a point that
is further away than `r` meets one of the points. -/
structure Surrounds (center : Point) (r : Int) (ps : List Point) : Prop where
  nodup : ps.Nodup
  near : ∀ p ∈ ps, center.distance p ≤ r
  right : ⟨center.x + r, center.y⟩ ∈ ps
  left : ⟨center.x - r, center.y⟩ ∈ ps
  below : ⟨center.x, center.y + r⟩ ∈ ps
  above : ⟨center.x, center.y - r⟩ ∈ ps
  mirrored : ∀ dx dy, ⟨center.x + dx, center.y + dy⟩ ∈ ps → ⟨center.x - dx, center.y + dy⟩ ∈ ps
  flipped : ∀ dx dy, ⟨center.x + dx, center.y + dy⟩ ∈ ps → ⟨center.x + dx, center.y - dy⟩ ∈ ps
  swapped : ∀ dx dy, ⟨center.x + dx, center.y + dy⟩ ∈ ps → ⟨center.x + dy, center.y + dx⟩ ∈ ps
  met : ∀ (path : List Point) (q : Point), path.IsChain Point.Adjacent →
    path.head? = some center → path.getLast? = some q → r < center.distance q → ∃ p ∈ path, p ∈ ps

/-- The signs of the two offsets from the center do not matter, and neither does their order. -/
theorem mem_outline_of_reflected {dx dy dx' dy' : Int} (positive : 0 ≤ r)
    (reflected : (dx'.natAbs = dx.natAbs ∧ dy'.natAbs = dy.natAbs) ∨
      dx'.natAbs = dy.natAbs ∧ dy'.natAbs = dx.natAbs)
    (member : ⟨center.x + dx, center.y + dy⟩ ∈ outline center r) :
    ⟨center.x + dx', center.y + dy'⟩ ∈ outline center r := by
  have offset (a d : Int) : (a - (a + d)).natAbs = d.natAbs := by omega
  rw [mem_outline_iff positive] at member ⊢
  simp only [Point.nearness, Point.distance, offset] at member ⊢
  rcases reflected with ⟨column, row⟩ | ⟨column, row⟩
  · rwa [column, row]
  · rwa [column, row, Nat.min_comm, Nat.max_comm]

/-- **The outline of a circle surrounds its center.** -/
theorem surrounds_outline (center : Point) (positive : 0 < r) :
    Surrounds center r (outline center r) := by
  have nonneg : 0 ≤ r := Int.le_of_lt positive
  refine ⟨nodup_outline center nonneg, fun p member => ?_, ?_, ?_, ?_, ?_, fun dx dy => ?_,
    fun dx dy => ?_, fun dx dy => ?_, fun path q steps start last far => ?_⟩
  · have near := near_of_mem_outline nonneg member
    simp only [Point.distance]
    omega
  · exact mem_outline_of_end nonneg (by simp)
  · exact mem_outline_of_end nonneg (by simp)
  · exact mem_outline_of_end nonneg (by simp)
  · exact mem_outline_of_end nonneg (by simp)
  · rw [Int.sub_eq_add_neg]
    exact mem_outline_of_reflected nonneg (Or.inl ⟨Int.natAbs_neg dx, rfl⟩)
  · rw [Int.sub_eq_add_neg]
    exact mem_outline_of_reflected nonneg (Or.inl ⟨rfl, Int.natAbs_neg dy⟩)
  · exact mem_outline_of_reflected nonneg (Or.inr ⟨rfl, rfl⟩)
  · refine Classical.byContradiction fun avoids => ?_
    have inside : Encloses center r q := by
      refine encloses_of_path nonneg steps ?_ ?_ q (List.mem_of_getLast? last)
      · intro p first
        obtain rfl : center = p := Option.some.inj (start.symm.trans first)
        exact encloses_center center positive
      · exact fun p member wall => avoids ⟨p, member, wall⟩
    have := inside.distance_lt nonneg
    omega

/-- **Outlines enclose.** Whatever the center is, the outline of a circle with a positive radius
surrounds it: no point is listed twice, none is further than the radius away, the four ends are
listed, reflections keep the outline, and every path that leaves the circle meets it. So a flood
that starts in the center stays inside of the outline on every canvas on which the outline has other
colors than the center; for example behind painting it, with the smallest brush, in an opaque color
that the center does not have. -/
theorem outlines_enclose (center : Point) (r : Int) (positive : 1 ≤ r) :
    Surrounds center r (outline center r) ∧
      (∀ (c : Canvas) (fill : Color),
        (∀ p ∈ outline center r, c.Contains p → c.get p ≠ c.get center) →
          ∀ q ∈ Flood.region c center fill, center.distance q < r ∧ q ∉ outline center r) ∧
      ∀ (m m' : Machine) (fill : Color),
        Machine.paint (m.canvas.coat (outline center r) Brush.single.size) m = .ok () m' →
          m.pen.color.a = 255 → m.canvas.get center ≠ m.pen.color →
          ∀ q ∈ Flood.region m'.canvas center fill,
            center.distance q < r ∧ q ∉ outline center r := by
  have nonneg : 0 ≤ r := by omega
  have inside {q : Point} (encloses : Encloses center r q) :
      center.distance q < r ∧ q ∉ outline center r :=
    ⟨encloses.distance_lt nonneg, encloses.not_mem_outline nonneg⟩
  refine ⟨surrounds_outline center positive, ?_, ?_⟩
  · intro c fill walls q member
    exact inside (encloses_of_connected positive walls (Flood.mem_region_iff.1 member).2)
  · intro m m' fill painted full other q member
    exact inside (encloses_of_painted positive painted full other (Flood.mem_region_iff.1 member).2)

/-- A machine with a white canvas of nine by nine pixels and a black pen. -/
def onWhite : Machine where
  canvas := .blank 9 9
  reporter := { pace := {} }

/-- A black circle on a white canvas: the flood from its center does not come to the corner. -/
theorem small_circle_holds_the_flood :
    Surrounds ⟨4, 4⟩ 3 (outline ⟨4, 4⟩ 3) ∧
      ∃ m', Machine.paint (onWhite.canvas.coat (outline ⟨4, 4⟩ 3) Brush.single.size) onWhite =
          .ok () m' ∧
        (⟨0, 0⟩ : Point) ∉ Flood.region m'.canvas ⟨4, 4⟩ (.rgb 255 0 0) := by
  obtain ⟨surrounds, -, floods⟩ := outlines_enclose ⟨4, 4⟩ 3 (by decide)
  obtain ⟨m', painted⟩ : ∃ m', Machine.paint
      (onWhite.canvas.coat (outline ⟨4, 4⟩ 3) Brush.single.size) onWhite = .ok () m' :=
    Machine.exists_paint_of_fits (fun p _ => Brush.fits_one p)
      (Machine.paint_unhindered _ ⟨rfl, rfl⟩ (by decide))
  refine ⟨surrounds, m', painted, fun member => ?_⟩
  have near := (floods onWhite m' _ painted rfl (by decide) _ member).1
  exact absurd near (by decide)

end Circle

end PenScript
