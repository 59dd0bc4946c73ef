import PenScript.Shape

/-!
# The walk along a circle

The walk along one eighth of a circle goes through stages: a place and the decision variable. The
points of the outline are the reflections of the places, stage by stage. What one step of the walk
keeps is true of all stages.

## Main definitions

* `Circle.Stage` — a place of the walk, with the decision variable;
* `Circle.stages` — the stages of the walk.

## Main results

* `Circle.outline_eq`: the outline is the reflections of all stages;
* `Circle.Stage.within_stages`: how far the walk goes, and how large the decision variable gets.
-/

namespace PenScript.Circle

/-- A place of the walk along one eighth of a circle, counted from the center in columns and rows,
and the decision variable. -/
structure Stage where
  x : Int
  y : Int
  d : Int

namespace Stage

/-- The stage at the start of the walk. -/
def start (r : Int) : Stage :=
  ⟨0, r, 3 - 2 * r⟩

/-- The stage behind a step. -/
def next (s : Stage) : Stage :=
  if 0 < s.d then ⟨s.x + 1, s.y - 1, s.d + 4 * (s.x - s.y + 2) + 10⟩
  else ⟨s.x + 1, s.y, s.d + 4 * (s.x + 1) + 6⟩

end Stage

/-- The stages from `s` on. The walk ends when it has crossed the diagonal. -/
def stages (s : Stage) : List Stage :=
  if s.x ≤ s.y then s :: stages s.next else []
termination_by (s.y + 1 - s.x).toNat
decreasing_by
  rw [Stage.next]
  split
  · dsimp only
    omega
  · dsimp only
    omega

/-- The walk goes on up to the diagonal. -/
theorem stages_of_le {s : Stage} (here : s.x ≤ s.y) : stages s = s :: stages s.next := by
  rw [stages, if_pos here]

/-- Behind the diagonal the walk is over. -/
theorem stages_of_not_le {s : Stage} (crossed : ¬s.x ≤ s.y) : stages s = [] := by
  rw [stages, if_neg crossed]

/-- The walk collects the reflections of its stages. -/
theorem walk_eq (center : Point) (s : Stage) (points : Array Point) :
    (walk center s.x s.y s.d points).toList =
      points.toList ++ (stages s).flatMap fun s => octants center s.x s.y := by
  induction s using stages.induct generalizing points with
  | case1 s here ih =>
      have step : walk center s.x s.y s.d points =
          walk center s.next.x s.next.y s.next.d (points ++ octants center s.x s.y) := by
        rw [walk, if_pos here, Stage.next]
        split <;> rfl
      rw [step, ih, stages_of_le here, List.flatMap_cons]
      simp
  | case2 s crossed =>
      rw [walk, if_neg crossed, stages_of_not_le crossed, List.flatMap_nil, List.append_nil]

/-- **The outline of a circle** is the reflections of all stages. -/
theorem outline_eq (center : Point) (r : Int) :
    outline center r = (stages (.start r)).flatMap fun s => octants center s.x s.y := by
  rw [outline]
  exact walk_eq center (.start r) #[]

/-- The reflections of a place at the axes: each of the two numbers is added or taken away. -/
theorem mem_images {center p : Point} {dx dy : Int} :
    p ∈ [(⟨center.x + dx, center.y + dy⟩ : Point), ⟨center.x - dx, center.y + dy⟩,
        ⟨center.x + dx, center.y - dy⟩, ⟨center.x - dx, center.y - dy⟩] ↔
      (p.x = center.x + dx ∨ p.x = center.x - dx) ∧
        (p.y = center.y + dy ∨ p.y = center.y - dy) := by
  rcases p with ⟨px, py⟩
  simp only [List.mem_cons, List.not_mem_nil, Point.mk.injEq, or_false]
  constructor
  · rintro (⟨rfl, rfl⟩ | ⟨rfl, rfl⟩ | ⟨rfl, rfl⟩ | ⟨rfl, rfl⟩) <;> simp
  · rintro ⟨rfl | rfl, rfl | rfl⟩ <;> simp

/-- The reflections of a place at the axes and at the diagonals. -/
theorem mem_octants {center p : Point} {x y : Int} :
    p ∈ octants center x y ↔
      ((p.x = center.x + x ∨ p.x = center.x - x) ∧ (p.y = center.y + y ∨ p.y = center.y - y)) ∨
        (p.x = center.x + y ∨ p.x = center.x - y) ∧ (p.y = center.y + x ∨ p.y = center.y - x) := by
  simp only [octants, List.mem_eraseDups, List.mem_append, mem_images]

/-- What a step keeps is true of all stages. -/
theorem stages_invariant {I : Stage → Prop} (keeps : ∀ s, s.x ≤ s.y → I s → I s.next)
    {s : Stage} (start : I s) : ∀ t ∈ stages s, t.x ≤ t.y ∧ I t := by
  induction s using stages.induct with
  | case1 s here ih =>
      rw [stages_of_le here]
      exact List.forall_mem_cons.2 ⟨⟨here, start⟩, ih (keeps s here start)⟩
  | case2 s crossed =>
      rw [stages_of_not_le crossed]
      exact fun t member => absurd member List.not_mem_nil

namespace Stage

/-- The walk goes to the right and down within the radius; the decision variable does not get too
small, and it grows no faster than the column. -/
structure Within (r : Int) (s : Stage) : Prop where
  column : 0 ≤ s.x
  row : s.y ≤ r
  lower : -4 * r ≤ s.d
  upper : s.d ≤ 18 * s.x + 10

/-- A step of the walk stays within the radius. -/
theorem Within.next {r : Int} {s : Stage} (here : s.x ≤ s.y) (within : s.Within r) :
    s.next.Within r := by
  obtain ⟨column, row, lower, upper⟩ := within
  rw [Stage.next]
  split
  · exact ⟨by dsimp only; omega, by dsimp only; omega, by dsimp only; omega, by dsimp only; omega⟩
  · exact ⟨by dsimp only; omega, by dsimp only; omega, by dsimp only; omega, by dsimp only; omega⟩

/-- **How far the walk goes**, and how large the decision variable gets. -/
theorem within_stages {r : Int} (positive : 0 ≤ r) :
    ∀ s ∈ stages (.start r), s.x ≤ s.y ∧ s.Within r := by
  refine stages_invariant (fun s here within => within.next here) ?_
  exact ⟨Int.le_refl 0, Int.le_refl r, by simp only [start]; omega, by simp only [start]; omega⟩

end Stage

/-- No point of the outline is further than the radius from the center in its column or row. -/
theorem near_of_mem_outline {center p : Point} {r : Int} (positive : 0 ≤ r)
    (member : p ∈ outline center r) :
    (center.x - r ≤ p.x ∧ p.x ≤ center.x + r) ∧ center.y - r ≤ p.y ∧ p.y ≤ center.y + r := by
  rw [outline_eq] at member
  obtain ⟨s, stage, reflected⟩ := List.mem_flatMap.1 member
  obtain ⟨here, within⟩ := Stage.within_stages positive s stage
  have column := within.column
  have row := within.row
  rw [mem_octants] at reflected
  omega

/-- The four ends of the circle are points of the outline. -/
theorem mem_outline_of_end {center p : Point} {r : Int} (positive : 0 ≤ r)
    (ends : ((p.x = center.x + r ∨ p.x = center.x - r) ∧ p.y = center.y) ∨
      p.x = center.x ∧ (p.y = center.y + r ∨ p.y = center.y - r)) : p ∈ outline center r := by
  have first : Stage.start r ∈ stages (.start r) := by
    rw [stages_of_le (s := .start r) positive]
    exact List.mem_cons_self
  rw [outline_eq]
  refine List.mem_flatMap.2 ⟨.start r, first, mem_octants.2 ?_⟩
  simp only [Stage.start, Int.add_zero, Int.sub_zero]
  omega

end PenScript.Circle
