import Mathlib.Data.List.Sort
import Mathlib.Data.List.TakeDrop
import Mathlib.Data.List.TakeWhile
import PenScript.Proofs.Deed

/-!
# What painting comes to

A statement that draws puts down a brush at some points and lays a color over the pixels under it.
Here it is said which pixels these are: those of the canvas that are under the brush at one of the
points, each of them once. A brush that leaves the range of integers paints nothing any more, so
what is painted ends in front of the first such point. And it is said what is left behind the
pixels: painting that gets through has laid the color over one pixel after the other, and all else
but the reporter is as it was.

## Main definitions

* `Canvas.lay` — a color laid over pixels one after the other.

## Main results

* `Canvas.footprint_eq`: the part of the brush that is on the canvas;
* `Canvas.mem_covered`, `Canvas.nodup_covered`: the pixels under a brush, each once;
* `Canvas.coat_of_fits`, `Canvas.whole_coat`: what is painted if the brush stays in range, and when
  that is all;
* `Machine.canvas_of_exec`: the canvas behind a statement;
* `Machine.nodup_pixels`, `Machine.contains_of_mem_pixels`: the pixels that a statement writes.
-/

namespace PenScript

/-! ### Spans in order -/

namespace Span

/-- The members of a span are listed in increasing order. -/
theorem pairwise_toList (s : Span) : s.toList.Pairwise (· < ·) := by
  refine List.pairwise_map.2 (List.pairwise_lt_range.imp ?_)
  intro i j below
  omega

/-- The members of a span that have a property are listed in their order. If they are the members of
another span then they are listed as its members are. -/
theorem filter_toList {s t : Span} {P : Int → Prop} [DecidablePred P]
    (members : ∀ i, i ∈ t ↔ i ∈ s ∧ P i) : s.toList.filter (fun i => P i) = t.toList := by
  refine (s.pairwise_toList.filter _).eq_of_mem_iff t.pairwise_toList fun i => ?_
  rw [List.mem_filter, mem_toList, mem_toList, members, decide_eq_true_eq]

/-- The points of a grid whose column and row have a property, in order. -/
theorem filter_grid {xs ys xs' ys' : Span} {P Q : Int → Prop} [DecidablePred P] [DecidablePred Q]
    (columns : ∀ i, i ∈ xs' ↔ i ∈ xs ∧ P i) (rows : ∀ i, i ∈ ys' ↔ i ∈ ys ∧ Q i) :
    (grid xs ys).filter (fun p => P p.x ∧ Q p.y) = grid xs' ys' := by
  have row (y : Int) : (xs.toList.map fun x => Point.mk x y).filter (fun p => P p.x ∧ Q p.y) =
      if Q y then xs'.toList.map fun x => ⟨x, y⟩ else [] := by
    rw [List.filter_map, ← filter_toList columns]
    by_cases kept : Q y
    · simp [kept, Function.comp_def]
    · simp [kept, Function.comp_def]
  rw [grid, grid, List.filter_flatMap, ← filter_toList rows]
  simp only [row]
  induction ys.toList with
  | nil => rfl
  | cons y rest ih =>
      rw [List.flatMap_cons, ih]
      by_cases kept : Q y
      · simp [kept]
      · simp [kept]

end Span

/-- The brush of one pixel stays in range everywhere. -/
theorem Brush.fits_one (p : Point) : Brush.Fits 1 p :=
  ⟨Or.inl rfl, Or.inl rfl⟩

/-! ### Pixels under a brush -/

namespace Canvas

/-- The canvas behind a color that is laid over pixels one after the other. -/
def lay (c : Canvas) (color : Color) (ps : List Point) : Canvas :=
  ps.foldl (fun c p => c.blend p color) c

/-- Nothing is laid. -/
@[simp] theorem lay_nil (c : Canvas) (color : Color) : c.lay color [] = c := rfl

/-- The first pixel is laid before the others. -/
@[simp] theorem lay_cons (c : Canvas) (color : Color) (p : Point) (ps : List Point) :
    c.lay color (p :: ps) = (c.blend p color).lay color ps := rfl

/-- A mark is seen at its own place and nowhere else. -/
theorem get_mark {n : Nat} (seen : Vector Bool n) (i j : Fin n) :
    (seen.set i true).get j = if j = i then true else seen.get j := by
  change (seen.set i true)[j] = if j = i then true else seen[j]
  by_cases same : j = i
  · subst same
    simp
  · have apart : i.val ≠ j.val := fun e => same (Fin.ext e.symm)
    simp [same, apart]

section KeepNew

variable (c : Canvas) (seen : Vector Bool (c.width * c.height)) (found : Array Point)

/-- A point of the canvas that is not marked is kept and marked, and all others are left out. -/
theorem keepNew_cons (p : Point) (ps : List Point) :
    ∃ mark : Fin (c.width * c.height) → Vector Bool (c.width * c.height),
      (∀ i j, (mark i).get j = if j = i then true else seen.get j) ∧
      c.keepNew seen found (p :: ps) =
        match c.index? p with
        | none => c.keepNew seen found ps
        | some i =>
          if seen.get i then c.keepNew seen found ps
          else c.keepNew (mark i) (found.push p) ps := by
  exact ⟨fun i => seen.set i true, fun i j => get_mark seen i j, rfl⟩

/-- A point is left out because it is outside or marked, or it is kept and marked from now on. -/
theorem keepNew_cases (p : Point) (ps : List Point) :
    ((∀ i, c.index? p = some i → seen.get i = true) ∧
        c.keepNew seen found (p :: ps) = c.keepNew seen found ps) ∨
      ∃ i marked, c.index? p = some i ∧ seen.get i = false ∧
        (∀ j, Vector.get marked j = if j = i then true else seen.get j) ∧
        c.keepNew seen found (p :: ps) = c.keepNew marked (found.push p) ps := by
  obtain ⟨mark, marks, unfolded⟩ := c.keepNew_cons seen found p ps
  rw [unfolded]
  cases c.index? p with
  | none =>
      refine Or.inl ⟨fun i inside => ?_, rfl⟩
      cases inside
  | some i =>
      cases marked : seen.get i with
      | true =>
          refine Or.inl ⟨fun j at_j => ?_, if_pos marked⟩
          obtain rfl : i = j := Option.some.inj at_j
          exact marked
      | false =>
          refine Or.inr ⟨i, mark i, rfl, marked, marks i, if_neg ?_⟩
          rw [marked]
          exact Bool.false_ne_true

/-- The points that are kept behind `found` are those of the list that are on the canvas and not
marked, each of them once. -/
theorem keepNew_eq (ps : List Point) :
    ∃ new, (c.keepNew seen found ps).toList = found.toList ++ new ∧ new.Nodup ∧
      ∀ q, q ∈ new ↔ q ∈ ps ∧ ∃ i, c.index? q = some i ∧ seen.get i = false := by
  induction ps generalizing seen found with
  | nil => exact ⟨[], (List.append_nil _).symm, List.nodup_nil, by simp⟩
  | cons p ps ih =>
      rcases c.keepNew_cases seen found p ps with
        ⟨blocked, skipped⟩ | ⟨j, marked, place, free, marks, taken⟩
      · obtain ⟨new, kept, nodup, mem⟩ := ih seen found
        refine ⟨new, by rw [skipped, kept], nodup, fun q => (mem q).trans ?_⟩
        constructor
        · rintro ⟨later, unmarked⟩
          exact ⟨List.mem_cons_of_mem _ later, unmarked⟩
        · rintro ⟨here, i, at_i, unmarked⟩
          rcases List.mem_cons.1 here with rfl | later
          · rw [blocked i at_i] at unmarked
            cases unmarked
          · exact ⟨later, i, at_i, unmarked⟩
      · obtain ⟨new, kept, nodup, mem⟩ := ih marked (found.push p)
        -- the mark tells its own point from all other ones
        have unmarked {q : Point} {i : Fin (c.width * c.height)} (at_i : c.index? q = some i) :
            marked.get i = false ↔ q ≠ p ∧ seen.get i = false := by
          have same : i = j ↔ q = p := by
            constructor
            · rintro rfl
              exact index?_injective at_i place
            · rintro rfl
              exact Option.some.inj (at_i.symm.trans place)
          rw [marks, Ne, ← same]
          by_cases here : i = j <;> simp [here]
        refine ⟨p :: new, by simp [taken, kept], List.nodup_cons.2 ⟨?_, nodup⟩, fun q => ?_⟩
        · intro again
          obtain ⟨-, i, at_i, fresh⟩ := (mem p).1 again
          exact ((unmarked at_i).1 fresh).1 rfl
        · rw [List.mem_cons, List.mem_cons, mem q]
          constructor
          · rintro (rfl | ⟨later, i, at_i, fresh⟩)
            · exact ⟨Or.inl rfl, j, place, free⟩
            · exact ⟨Or.inr later, i, at_i, ((unmarked at_i).1 fresh).2⟩
          · rintro ⟨here, i, at_i, fresh⟩
            by_cases same : q = p
            · exact Or.inl same
            · exact Or.inr ⟨here.resolve_left same, i, at_i, (unmarked at_i).2 ⟨same, fresh⟩⟩

end KeepNew

variable {c : Canvas} {centers : List Point} {size : Nat}

/-- What is covered is kept once, and it is all of what the brush touches. -/
theorem covered_eq (c : Canvas) (centers : List Point) (size : Nat) :
    (c.covered centers size).Nodup ∧
      ∀ q, q ∈ c.covered centers size ↔ q ∈ centers.flatMap (c.footprint size) := by
  obtain ⟨new, kept, nodup, mem⟩ :=
    c.keepNew_eq (.replicate _ false) #[] (centers.flatMap (c.footprint size))
  have same : c.covered centers size = new := by rw [covered, kept]; rfl
  rw [same]
  refine ⟨nodup, fun q => (mem q).trans (and_iff_left_of_imp fun touched => ?_)⟩
  obtain ⟨center, -, under⟩ := List.mem_flatMap.1 touched
  rw [footprint, mem_region] at under
  obtain ⟨i, at_i⟩ := Option.ne_none_iff_exists'.1 fun none => index?_eq_none_iff.1 none under.2
  have unmarked : (Vector.replicate (c.width * c.height) false)[i] = false := by simp
  exact ⟨i, at_i, unmarked⟩

/-- No pixel is covered twice. -/
theorem nodup_covered (c : Canvas) (centers : List Point) (size : Nat) :
    (c.covered centers size).Nodup :=
  (c.covered_eq centers size).1

/-- A pixel is covered if it is on the canvas and under the brush at one of the centers. -/
theorem mem_covered {q : Point} : q ∈ c.covered centers size ↔
    c.Contains q ∧ ∃ center ∈ centers,
      q.x ∈ Span.around center.x (size / 2) ∧ q.y ∈ Span.around center.y (size / 2) := by
  rw [(c.covered_eq centers size).2, List.mem_flatMap]
  constructor
  · rintro ⟨center, put, under⟩
    obtain ⟨near, inside⟩ := mem_region.1 under
    exact ⟨inside, center, put, near⟩
  · rintro ⟨inside, center, put, near⟩
    exact ⟨center, put, mem_region.2 ⟨near, inside⟩⟩

/-- What is under a brush is a square, of which the canvas keeps its own points in order. -/
theorem footprint_eq (c : Canvas) (size : Nat) (p : Point) :
    c.footprint size p = (Brush.square p size).filter fun q => c.Contains q :=
  (Span.filter_grid (fun _ => Span.mem_clip) fun _ => Span.mem_clip).symm

/-- If the brush stays in range everywhere, all that it covers is painted. -/
theorem coat_of_fits (c : Canvas) (fits : ∀ p ∈ centers, Brush.Fits size p) :
    c.coat centers size = ⟨c.covered centers size, true⟩ := by
  have all : centers.takeWhile (fun p => decide (Brush.Fits size p)) = centers :=
    List.takeWhile_eq_self_iff.2 fun p mem => decide_eq_true (fits p mem)
  have none : centers.dropWhile (fun p => decide (Brush.Fits size p)) = [] :=
    List.dropWhile_eq_nil_iff.2 fun p mem => decide_eq_true (fits p mem)
  rw [coat, List.span_eq_takeWhile_dropWhile, all, none]
  rfl

/-- What is painted is covered by the brush at the points in front of the first one where it leaves
the range. -/
theorem pixels_coat (c : Canvas) (centers : List Point) (size : Nat) :
    (c.coat centers size).pixels =
      c.covered (centers.takeWhile fun p => Brush.Fits size p) size := by
  rw [coat, List.span_eq_takeWhile_dropWhile]

/-- That is all there is to paint exactly if the brush stays in range everywhere. -/
theorem whole_coat (c : Canvas) (centers : List Point) (size : Nat) :
    (c.coat centers size).whole = true ↔ ∀ p ∈ centers, Brush.Fits size p := by
  rw [coat, List.span_eq_takeWhile_dropWhile]
  simp [List.dropWhile_eq_nil_iff]

end Canvas

/-! ### Painting that gets through -/

namespace Machine

variable {dice : Nat → Nat} {s : Stmt} {m m' : Machine}

/-- Painting that gets through has laid the color over all pixels, and reported. -/
theorem paintPixels_eq_ok {color : Color} {ps : List Point}
    (h : paintPixels color ps m = .ok () m') :
    ∃ reporter, m' = { m with canvas := m.canvas.lay color ps, reporter } := by
  induction ps generalizing m with
  | nil =>
      cases h
      exact ⟨_, rfl⟩
  | cons p ps ih =>
      rw [paintPixels_cons] at h
      split at h
      · cases h
      · split at h
        · exact ih h
        · cases h

/-- The canvas behind a statement is the one in front of it, with the pixels of the statement. -/
theorem canvas_of_exec (h : exec dice s m = .ok () m') :
    m'.canvas = m.canvas.lay m.pen.color (pixels dice s m) := by
  obtain ⟨throws, m₁, painted, pen, vars, pc, rfl, -⟩ := exec_eq_ok h
  obtain ⟨reporter, rfl⟩ := paintPixels_eq_ok painted
  rfl

/-- A statement paints nothing, or what its figure asks for. -/
theorem coat_cases (dice : Nat → Nat) (s : Stmt) (m : Machine) :
    coat dice s m = ⟨[], true⟩ ∨
      ∃ f throws, s.act (m.scene dice) m.throws = .ok (.draw f, throws) ∧
        coat dice s m = (f.drawing m.canvas m.pen).coat m.canvas := by
  rw [coat, deed]
  cases read : s.act (m.scene dice) m.throws with
  | error f => exact Or.inl rfl
  | ok r =>
      obtain ⟨act, throws⟩ := r
      cases act with
      | draw f => exact Or.inr ⟨f, throws, rfl, rfl⟩
      | settle _ | assign _ _ | rest => exact Or.inl rfl
      | jump label =>
          refine Or.inl ?_
          dsimp only [Deed.ofAct]
          split <;> rfl

/-- What a statement paints is covered by its brush, or there is nothing to paint. -/
theorem pixels_cases (dice : Nat → Nat) (s : Stmt) (m : Machine) :
    pixels dice s m = [] ∨ ∃ centers size, pixels dice s m = m.canvas.covered centers size := by
  rw [pixels]
  obtain none | ⟨f, throws, -, some⟩ := coat_cases dice s m
  · exact Or.inl (by rw [none])
  · rw [some, Drawing.coat]
    split
    · exact Or.inr ⟨_, _, Canvas.pixels_coat _ _ _⟩
    · exact Or.inl rfl

/-- No statement writes a pixel twice. -/
theorem nodup_pixels (dice : Nat → Nat) (s : Stmt) (m : Machine) : (pixels dice s m).Nodup := by
  rcases pixels_cases dice s m with none | ⟨centers, size, some⟩
  · rw [none]
    exact List.nodup_nil
  · rw [some]
    exact m.canvas.nodup_covered centers size

/-- A statement writes pixels of the canvas only. -/
theorem contains_of_mem_pixels {q : Point} (h : q ∈ pixels dice s m) : m.canvas.Contains q := by
  rcases pixels_cases dice s m with none | ⟨centers, size, some⟩
  · rw [none] at h
    cases h
  · rw [some] at h
    exact (Canvas.mem_covered.1 h).1

/-- A statement that does not draw writes no pixel. -/
theorem pixels_of_not_isDrawing (dice : Nat → Nat) (m : Machine) (h : s.isDrawing = false) :
    pixels dice s m = [] := by
  obtain none | ⟨f, throws, read, -⟩ := coat_cases dice s m
  · rw [pixels, none]
  · have draws := ((s.act_suits (m.scene dice)).of_eq_ok read).1
    rw [h] at draws
    cases draws

end Machine

end PenScript
